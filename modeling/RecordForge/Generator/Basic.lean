import RecordForge.Calendar.Date
import RecordForge.Draw.Source
import RecordForge.Number.Binary
import RecordForge.Value

/-!
# Generators

A generator gives the values of one field. It holds its parameters and, where the values follow one
another, how far it has come; the draws come from a source that every call hands on.

* `Generator`: the nine ways to make values.
* `Generator.next`: the next value, the generator after it and the source after it.
* `fit`: the word that an integer leaves in a field.
* `alphabet`, `drawChars`: the characters of generated texts, and as many of them as a text has.
-/

namespace RecordForge

open Calendar

/-- How the fractions of a decimal field are drawn. -/
inductive Shape where
  /-- Every fraction is as likely as any other. -/
  | uniform
  /-- Fractions follow the standard normal distribution. -/
  | normal
  deriving DecidableEq, Repr

/-- What gives the values of one field. -/
inductive Generator where
  /-- A random integer from `lower` up to but not including `lower + width`, times `scale`. -/
  | range (lower width scale : Int) (kind : Kind)
  /-- The integers from `count` on, times `scale`. -/
  | counter (count scale : Int) (kind : Kind)
  /-- A random one of `buckets` days, each `scale` days after the one before, within `width` days.
  Without buckets every value is `fallback`. -/
  | days (lower : Date) (width scale buckets fallback : Int) (kind : Kind)
  /-- A random item. -/
  | pick (items : List Value)
  /-- The items in order, over and over, from `index` on. -/
  | rotate (items : List Value) (index : Int)
  /-- A random fraction times `width`, divided by `power` and moved by `lower`. -/
  | decimal (shape : Shape) (lower : Float) (width : Int) (power : Float) (single : Bool)
  /-- A random text of a random length from `lower` up to but not including `lower + width`. -/
  | text (lower width : Int)
  /-- Null when a fraction is at most `probability`, otherwise a value of another generator. -/
  | nullable (probability : Float) (inner : Generator)
  deriving DecidableEq

/-- The characters of generated texts. -/
def alphabet : Vector Char 75 :=
  ⟨"abcdefghijklmnopqrstuvwxyzABCDEFGHIJKLMNOPQRSTUVWXYZáéíóúàèìòù0123456789_&%".toList.toArray,
    by decide⟩

/-- The word that an integer leaves in a field of a kind. A word that an `int` field cannot hold is a
failure. -/
def fit (n : Int) (kind : Kind) : Except Failure Int :=
  let w := Word.wrap n
  if kind = .int ∧ ¬Word.IsInt w then .error (.misfit w) else .ok w

/-- The remainder of a division that cuts toward zero. -/
def remainder (a b : Int) : Except Failure Int :=
  if b = 0 then .error (.defect .divisionByZero) else .ok (Word.remainder a b)

/-- The item at a position. A negative position counts from the end. -/
def itemAt? {α : Type} (items : List α) (i : Int) : Option α :=
  if 0 ≤ i then items[i.toNat]?
  else if 0 ≤ items.length + i then items[(items.length + i).toNat]? else none

variable {σ : Type} [Source σ]

/-- A number of random characters. -/
def drawChars : Nat → σ → List Char × σ
  | 0, s => ([], s)
  | n + 1, s =>
    let (i, s) := Source.below 75 (by decide) s
    let (cs, s) := drawChars n s
    (alphabet[i] :: cs, s)

/-- A random fraction of a shape. -/
def Shape.draw (shape : Shape) (s : σ) : Float × σ :=
  match shape with
  | uniform => Source.fraction s
  | normal => Source.normal s

/-- A fraction moved to the span of a decimal field. -/
def place (fraction lower : Float) (width : Int) (power : Float) (single : Bool) :
    Except Failure Float :=
  let factor := Float.ofInt width
  if factor.isInf then .error (.defect .tooGreat)
  else if power == 0.0 then .error (.defect .divisionByZero)
  else
    let x := fraction * factor / power + lower
    .ok (if single then Binary.toSingle x else x)

namespace Generator

/-- The day that the bucket of a number starts with, as a value. -/
def dayOf (lower : Date) (width scale : Int) (kind : Kind) (bucket : Nat) : Except Failure Int :=
  match lower.plus? (min (bucket * scale) (width - 1)) with
  | some d => fit d.toStamp kind
  | none => .error (.defect .dateOutOfReach)

/-- The value of a range for a 64-bit draw. -/
def rangeValue (n lower width scale : Int) (kind : Kind) : Except Failure Value := do
  let offset ← remainder (Word.magnitude n) width
  let w ← fit (Word.wrap (offset + lower) * scale) kind
  return .int w

/-- The next value of a generator, the generator after it and the source after it. -/
def next : Generator → σ → Except Failure Value × Generator × σ
  | g@(range lower width scale kind), s =>
    let (n, s) := Source.long s
    (rangeValue n lower width scale kind, g, s)
  | counter count scale kind, s =>
    ((fit (count * scale) kind).map .int, counter (Word.wrap (count + 1)) scale kind, s)
  | g@(days lower width scale buckets fallback kind), s =>
    if buckets = 0 then (.ok (.int fallback), g, s)
    else match Draw.below buckets s with
      | (.ok bucket, s) => ((dayOf lower width scale kind bucket).map .int, g, s)
      | (.error e, s) => (.error (.defect e), g, s)
  | g@(pick items), s =>
    match Draw.below items.length s with
    | (.ok i, s) =>
      match items[i]? with
      | some v => (.ok v, g, s)
      | none => (.error (.defect .noSuchItem), g, s)
    | (.error e, s) => (.error (.defect e), g, s)
  | g@(rotate items index), s =>
    match itemAt? items index with
    | some v => (.ok v, rotate items ((index + 1) % items.length), s)
    | none => (.error (.defect .noSuchItem), g, s)
  | g@(decimal shape lower width power single), s =>
    let (x, s) := shape.draw s
    ((place x lower width power single).map .float, g, s)
  | g@(text lower width), s =>
    match Draw.below width s with
    | (.ok n, s) =>
      let (cs, s) := drawChars (n + lower).toNat s
      (.ok (.text (String.ofList cs)), g, s)
    | (.error e, s) => (.error (.defect e), g, s)
  | nullable p inner, s =>
    let (x, s) := Source.fraction s
    if x ≤ p then (.ok .null, nullable p inner, s)
    else
      let (v, inner, s) := next inner s
      (v, nullable p inner, s)

/-- The first values of a generator, up to the first failure, and the generator after them. -/
def run : (count : Nat) → Generator → σ → List Value × Option Failure × Generator × σ
  | 0, g, s => ([], none, g, s)
  | count + 1, g, s =>
    match g.next s with
    | (.ok v, g, s) =>
      let (vs, failure, g, s) := run count g s
      (v :: vs, failure, g, s)
    | (.error e, g, s) => ([], some e, g, s)

end Generator

end RecordForge
