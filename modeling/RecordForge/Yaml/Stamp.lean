import RecordForge.Calendar.Moment
import RecordForge.Schema.Json
import RecordForge.Yaml.Cursor

/-!
# Days and times in YAML

A day is written `2001-12-14`. A time of day may follow it after the letter `T` or white space, as in
`2001-12-14 21:59:43.10 -5`, and the clock at its end.

* `Stamp`: what is written.
* `Stamp.read?`: reading it.
* `Stamp.shown?`: the day or the moment that it names, as messages show it.
-/

namespace RecordForge.Yaml

/-- A time of day as it is written. -/
structure Stamp.Time where
  hour : Nat
  minute : Nat
  second : Nat
  micro : Nat
  ahead : Option Int

/-- A day as it is written, perhaps with a time. -/
structure Stamp where
  year : Nat
  month : Nat
  day : Nat
  /-- Whether the month and the day have two digits each. -/
  isWide : Bool
  time : Option Stamp.Time

namespace Stamp

/-- A number with a least and a greatest count of digits that a text starts with, its count of digits,
and what follows it. -/
def number? (least most : Nat) (s : List Char) : Option (Nat × Nat × List Char) :=
  let ds := (s.takeWhile Json.isAsciiDigit).take most
  if ds.length < least then none else some (Text.numberOf ds, ds.length, s.drop ds.length)

/-- What follows a sign. -/
def sign? (c : Char) : List Char → Option (List Char)
  | [] => none
  | x :: rest => if x = c then some rest else none

/-- A fraction of a second in millionths, and what follows it. -/
def fraction (s : List Char) : Nat × List Char :=
  match s with
  | '.' :: rest =>
    let ds := rest.takeWhile Json.isAsciiDigit
    (Text.numberOf (ds.take 6 ++ List.replicate (6 - ds.length) '0'), rest.drop ds.length)
  | _ => (0, s)

/-- By how many seconds the clock at the end of a time is ahead of universal time. -/
def clock? (s : List Char) : Option (Option Int) :=
  match s, s.dropWhile isWhite with
  | [], _ => some none
  | _, ['Z'] => some (some 0)
  | _, c :: rest => do
    if c ≠ '+' ∧ c ≠ '-' then none
    let (hours, _, rest) ← number? 1 2 rest
    let (minutes, rest) ← match rest with
      | ':' :: rest => (number? 2 2 rest).map fun (n, _, rest) => (n, rest)
      | rest => some (0, rest)
    if !rest.isEmpty then none
    let seconds : Int := (hours * 60 + minutes) * 60
    return some (if c = '-' then -seconds else seconds)
  | _, [] => none

/-- A time of day up to the end of a text. -/
def time? (s : List Char) : Option Time := do
  let (hour, _, s) ← number? 1 2 s
  let (minute, _, s) ← number? 2 2 (← sign? ':' s)
  let (second, _, s) ← number? 2 2 (← sign? ':' s)
  let (micro, s) := fraction s
  let ahead ← clock? s
  return ⟨hour, minute, second, micro, ahead⟩

/-- A day, and a time if more follows, up to the end of a text. -/
def read? (s : List Char) : Option Stamp := do
  let (year, _, s) ← number? 4 4 s
  let (month, m, s) ← number? 1 2 (← sign? '-' s)
  let (day, d, s) ← number? 1 2 (← sign? '-' s)
  let isWide := m == 2 && d == 2
  match s with
  | [] => return ⟨year, month, day, isWide, none⟩
  | c :: rest =>
    let rest ← if c = 'T' ∨ c = 't' then some rest
      else if isWhite c then some (rest.dropWhile isWhite) else none
    let time ← time? rest
    return ⟨year, month, day, isWide, some time⟩

/-- Whether a stamp may stand without a tag: a day alone needs all of its digits. -/
def isPlain (t : Stamp) : Bool := t.isWide || t.time.isSome

/-- The day or the moment that a stamp names, as messages show it, if the calendar and the clock have
it. -/
def shown? (t : Stamp) : Option String := do
  let date ← Calendar.Date.of? t.year t.month t.day
  match t.time with
  | none => return date.shown
  | some c =>
    let moment ← Calendar.Moment.of? date c.hour c.minute c.second c.micro c.ahead
    return moment.shown

end Stamp

end RecordForge.Yaml
