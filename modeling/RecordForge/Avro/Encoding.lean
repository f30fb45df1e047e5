import RecordForge.Avro.Schema
import RecordForge.Calendar.Iso
import RecordForge.Number.Binary

/-!
# The binary encoding of Avro

* `varint`, `zigzag`: integers, seven bits to a byte, the sign in the lowest bit.
* `singleBits`, `littleEndian`: floating-point numbers, least significant byte first.
* `AvroType.accepts`: whether a branch of a union takes a document.
* `AvroType.branch?`: the branch that a document is written under: the first that takes it, where
  `float` gives way to a later `double`, and a record to one that shares more with the document.
* `AvroType.encode`: a document; a record in the order of the schema's fields.
* `AvroSchema.encodeRecord`: a record of a file.

What is written is a document, since the default of a field may be any. A record that is referred to by
its name is written by a function for such names, so that everything else follows the type; how deep
such references go is bounded by `AvroSchema.referenceLimit`.
-/

namespace RecordForge

namespace Avro

/-! ## Numbers -/

/-- The natural that stands for a signed integer: 0, -1, 1, -2, 2, … are numbered in this order. -/
def zigzag (n : Int) : Nat := if 0 ≤ n then 2 * n.natAbs else 2 * n.natAbs - 1

/-- A natural, seven bits to a byte, least significant first. All bytes but the last have the high bit
set. -/
def varint (n : Nat) : List UInt8 :=
  if n < 128 then [UInt8.ofNat n] else UInt8.ofNat (n % 128 + 128) :: varint (n / 128)
termination_by n
decreasing_by omega

/-- A signed integer. -/
def encodeInt (n : Int) : List UInt8 := varint (zigzag n)

/-- The first `count` bytes of a natural, least significant first. -/
def littleEndian : (count n : Nat) → List UInt8
  | 0, _ => []
  | count + 1, n => UInt8.ofNat (n % 256) :: littleEndian count (n / 256)

/-- The bits of the single-precision number nearest to a double. -/
def singleBits (x : Float) : Nat :=
  let sign := if Binary.isNegative x then twoTo 31 else 0
  match Binary.decode? (Binary.toSingle x) with
  | none => if x.isNaN then 0x7FC00000 else sign + 0x7F800000
  | some d =>
    -- the number on the grid of single precision
    let r := Binary.roundTo Binary.single d
    let lift := min (23 - r.m.log2) (r.q + 149).toNat
    let m := r.m * twoTo lift
    if m < twoTo 23 then sign + m else sign + (r.q - lift + 150).toNat * twoTo 23 + (m - twoTo 23)

/-- A text: its length in bytes and its bytes. -/
def encodeText (s : String) : List UInt8 :=
  let bytes := s.toUTF8.toList
  encodeInt bytes.length ++ bytes

/-! ## Numbers of documents -/

/-- A document as a floating-point number; an integer beyond all of them is too great. -/
def number : Document → Except Failure Float
  | .value (.float x) => .ok x
  | d =>
    match d.integer? with
    | some n =>
      let x := Float.ofInt n
      if x.isInf then .error (.defect .tooGreat) else .ok x
    | none => .error (.defect .illTyped)

/-- A document as an integer; a floating-point number is cut toward zero. -/
def wholeNumber : Document → Except Failure Int
  | .value (.float x) =>
    match Binary.decode? x with
    | some d => .ok (Binary.truncate d)
    | none => .error (.defect (if x.isNaN then .notNumber else .tooGreat))
  | d =>
    match d.integer? with
    | some n => .ok n
    | none => .error (.defect .illTyped)

/-- The document that a field of bare floating-point numbers writes for one: a text is read. -/
def asNumber : Document → Except Failure Document
  | .text s =>
    match Numeral.real? s.toList with
    | some x => .ok (.value (.float x))
    | none => .error (.defect (.malformedNumber s))
  | d => (number d).map fun x => .value (.float x)

/-! ## Documents -/

/-- A document that does not suit its type. -/
def unsuited {α : Type} : Except Failure α := .error (.defect .illTyped)

/-- A document of a primitive type. -/
def encodePrimitive (p : Primitive) (d : Document) : Except Failure (List UInt8) :=
  match p with
  | .null => .ok []
  | .boolean => .ok [if d.isTrue then 1 else 0]
  | .int | .long =>
    (wholeNumber d).bind fun n =>
      if Word.IsLong n then .ok (encodeInt n) else .error (.defect .tooGreat)
  | .float => (number d).map fun x => littleEndian 4 (singleBits x)
  | .double => (number d).map fun x => littleEndian 8 x.toBits.toNat
  | .string =>
    match d with
    | .text s => .ok (encodeText s)
    | _ => unsuited
  | .bytes => unsuited

/-- The number of the day that days are counted from. -/
def dayZero : Int := 719163

/-- A document as a count of days; a text names the day. -/
def encodeDays : Document → Except Failure (List UInt8)
  | .text s =>
    match Calendar.Date.ofIso? s with
    | some date => .ok (encodeInt (date.number - dayZero))
    | none => .error (.defect (.malformedDate s))
  | d => encodePrimitive .int d

/-- The place of a document among the symbols of an enum. -/
def symbolIndex? (symbols : List String) (d : Document) : Option Nat :=
  match d with
  | .text s => symbols.findIdx? (· == s)
  | _ => none

/-- Whether a primitive type takes a document. -/
def acceptsPrimitive (p : Primitive) (d : Document) : Bool :=
  match p, d with
  | .null, .value .null => true
  | .boolean, .value (.bool _) => true
  | .int, .value (.int n) => decide (Word.IsInt n)
  | .long, .value (.int n) => decide (Word.IsLong n)
  | .float, .value (.int _) | .float, .value (.float _) => true
  | .double, .value (.int _) | .double, .value (.float _) => true
  | .string, .text _ => true
  | _, _ => false

/-- Whether a count of days takes a document. A text is found out when it is written. -/
def acceptsDays : Document → Bool
  | .text _ => true
  | d => acceptsPrimitive .int d

/-- The key of an entry as a document. -/
def keyDocument (e : Leaf × Document) : Document := .atom e.1

/-- The parts of a document that can be gone through: the items of a list, the keys of a dictionary,
the characters of a text. -/
def parts? : Document → Option (List Document)
  | .list items => some items
  | .dict entries => some (entries.map keyDocument)
  | .text s => some (s.toList.map fun c => .text (String.singleton c))
  | .atom _ => none

/-- The text that a key is, as bytes. -/
def encodeKey : Leaf → Except Failure (List UInt8)
  | .value (.text s) => .ok (encodeText s)
  | _ => unsuited

/-- A sequence of parts: their count and the parts, if there are any, and a zero. -/
def encodeBlock {α : Type} (encode : α → Except Failure (List UInt8)) (parts : List α) :
    Except Failure (List UInt8) :=
  if parts.isEmpty then .ok (encodeInt 0)
  else (parts.mapM encode).map fun bs => encodeInt parts.length ++ bs.flatten ++ encodeInt 0

/-- Bytes of a fixed size: a text is none, but one of another size is found out first. -/
def encodeFixed (size : Option Int) (d : Document) : Except Failure (List UInt8) :=
  match parts? d with
  | some parts =>
    if size = some (parts.length : Int) then unsuited else .error (.defect .noMember)
  | none => unsuited

/-- What a field writes: what is there under its name, or else its default, or null if it may be
missing. -/
def fieldDocument {τ : Type} (f : AvroField τ) (d : Document) : Except Failure Document :=
  let there := match (d.get? f.name).or f.default with
    | some v => .ok v
    | none => if f.isOptional then .ok (.value .null) else .error (.defect .noMember)
  if f.isReal then there.bind asNumber else there

/-- Whether a name is a part of a text or an item of a list. -/
def holds (name : String) : Document → Bool
  | .text s => AvroType.hasPart name.toList s.toList
  | .list items => items.any fun d => d.text? == some name
  | _ => false

/-- A document without entries where a record is asked for: only a record without fields can be
written. -/
def encodeUnkeyed {τ : Type} (fields : List (AvroField τ)) (d : Document) : Except Failure (List UInt8) :=
  match fields, parts? d with
  | _, none => unsuited
  | [], some _ => .ok []
  | f :: _, some _ =>
    .error (.defect (if holds f.name d || f.default.isSome || f.isOptional then .noParts else .noMember))

/-- How many of the fields of a record a document has an entry for. -/
def shared {τ : Type} (fields : List (AvroField τ)) (d : Document) : Nat :=
  (fields.filter fun f => (d.get? f.name).isSome).length

end Avro

namespace AvroType

open Avro

mutual

/-- Whether a type takes a document, given which records referred to by name do. -/
def accepts (named : String → Document → Bool) : AvroType → Document → Bool
  | primitive p, d => acceptsPrimitive p d
  | days, d => acceptsDays d
  | enum symbols, d => (symbolIndex? symbols d).isSome
  | fixed _, _ => false
  | array items, .list ds => ds.all (accepts named items)
  | array _, _ => false
  | map values, .dict es => es.all fun (k, d) => (keyDocument (k, d)).text?.isSome && accepts named values d
  | map _, _ => false
  | union branches, d => anyAccepts named branches d
  | record fields, .dict es => allAccept named fields (.dict es)
  | record _, _ => false
  | .named name, .dict es => named name (.dict es)
  | .named _, _ => false

/-- Whether one of several types takes a document. -/
def anyAccepts (named : String → Document → Bool) : List AvroType → Document → Bool
  | [], _ => false
  | t :: rest, d => accepts named t d || anyAccepts named rest d

/-- Whether the types of fields take what a dictionary has for them. -/
def allAccept (named : String → Document → Bool) : List (AvroField AvroType) → Document → Bool
  | [], _ => true
  | ⟨name, t, default, _, _⟩ :: rest, d =>
    accepts named t (((d.get? name).or default).getD (.value .null)) && allAccept named rest d

end

/-- Whether a type is the primitive type given. -/
def isPrimitive (p : Primitive) : AvroType → Bool
  | primitive q => q == p
  | _ => false

/-- The place of the branch that a document is written under, given which of them take it. What has
been found is the record that shares the most with the document so far, with how much it shares. -/
def branchFrom? (takes : AvroType → Bool) (d : Document) (found : Option (Nat × Nat)) (place : Nat) :
    List AvroType → Option Nat
  | [] => found.map Prod.fst
  | t :: rest =>
    if takes t then
      match t with
      | record fields =>
        let more := shared fields d
        let best := if found.all fun f => f.2 < more then some (place, more) else found
        branchFrom? takes d best (place + 1) rest
      | primitive .float =>
        match rest.findIdx? (isPrimitive .double) with
        | some j => some (place + 1 + j)
        | none => some place
      | _ => some place
    else branchFrom? takes d found (place + 1) rest

/-- The place of the branch that a document is written under, given which of them take it. -/
def branch? (takes : AvroType → Bool) (d : Document) (branches : List AvroType) : Option Nat :=
  branchFrom? takes d none 0 branches

/-- What is done with records that are referred to by name. -/
structure References where
  accepts : String → Document → Bool
  encode : String → Document → Except Failure (List UInt8)

mutual

/-- The bytes of a document of a type. -/
def encode (refs : References) : AvroType → Document → Except Failure (List UInt8)
  | primitive p, d => encodePrimitive p d
  | days, d => encodeDays d
  | enum symbols, d =>
    match symbolIndex? symbols d with
    | some i => .ok (encodeInt i)
    | none => .error (.defect .noMember)
  | fixed size, d => encodeFixed size d
  | array items, d =>
    match parts? d with
    | some parts => encodeBlock (encode refs items) parts
    | none => unsuited
  | map values, d =>
    match d, parts? d with
    | .dict es, _ => encodeBlock (fun (k, d) => do return (← encodeKey k) ++ (← encode refs values d)) es
    | _, some [] => .ok (encodeInt 0)
    | _, some _ => .error (.defect .noParts)
    | _, none => unsuited
  | union branches, d =>
    match branch? (fun t => accepts refs.accepts t d) d branches with
    | some i => (encodeAt refs branches i d).map (encodeInt i ++ ·)
    | none => .error (.defect .noMember)
  | record fields, .dict es => encodeFields refs fields (.dict es)
  | record fields, d => encodeUnkeyed fields d
  | named name, d => refs.encode name d

/-- The bytes of a document of the type at a place. -/
def encodeAt (refs : References) : List AvroType → Nat → Document → Except Failure (List UInt8)
  | [], _, _ => unsuited
  | t :: _, 0, d => encode refs t d
  | _ :: rest, i + 1, d => encodeAt refs rest i d

/-- The bytes of the fields of a dictionary, in the order of the schema. -/
def encodeFields (refs : References) :
    List (AvroField AvroType) → Document → Except Failure (List UInt8)
  | [], _ => .ok []
  | ⟨name, t, default, isReal, isOptional⟩ :: rest, d => do
    let v ← fieldDocument ⟨name, t, default, isReal, isOptional⟩ d
    let bytes ← encode refs t v
    let more ← encodeFields refs rest d
    return bytes ++ more

end

end AvroType

namespace AvroSchema

/-- How deep records may lie within each other in a default. -/
def referenceLimit : Nat := 1000

/-- What is done with records that are referred to by name, to a depth. -/
def references (s : AvroSchema) : (depth : Nat) → AvroType.References
  | 0 => ⟨fun _ _ => false, fun _ _ => .error (.defect .tooDeep)⟩
  | depth + 1 =>
    { accepts := fun name d =>
        ((Ledger.get? s.names name).map fun t => t.accepts (s.references depth).accepts d).getD false
      encode := fun name d =>
        match Ledger.get? s.names name with
        | some t => t.encode (s.references depth) d
        | none => Avro.unsuited }

/-- The bytes of a record of a file. -/
def encodeRecord (s : AvroSchema) (r : Record) : Except Failure (List UInt8) :=
  s.type.encode (s.references referenceLimit) (.ofRecord r)

end AvroSchema

end RecordForge
