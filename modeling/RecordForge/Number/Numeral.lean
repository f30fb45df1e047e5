import RecordForge.Number.Notation
import RecordForge.Text.Blank
import RecordForge.Text.Digit

/-!
# Reading numbers

A number may be padded with blanks, may have a sign, may use the digits of any script, and may have
single underscores between two digits.

* `integer?`: an integer. One with more than `digitLimit` digits is refused, leading zeros counted.
* `real?`: a real number as the nearest double, with an optional fraction and exponent, or one of
  the words `inf`, `infinity` and `nan` in any case.
* `nearest`: the double nearest to a decimal.
* `powerOfTen`: powers of ten as doubles.
-/

namespace RecordForge.Numeral

open Text

/-- The greatest number of digits that an integer may have. -/
def digitLimit : Nat := 4300

/-- Why a text is no integer. -/
inductive Fault where
  /-- The text is not of the form of an integer. -/
  | malformed
  /-- It has more digits than `digitLimit`. -/
  | tooLong (digits : Nat)
  deriving DecidableEq, Repr

/-- The blanks that may stand around a number: all but the four control separators. -/
def isPadding (c : Char) : Bool := isBlank c && !(0x1C ≤ c.toNat && c.toNat ≤ 0x1F)

/-- A text without the padding at its two ends. -/
def stripPadding (s : List Char) : List Char :=
  ((s.dropWhile isPadding).reverse.dropWhile isPadding).reverse

/-- The sign of a number, `true` for a minus, and what follows it. -/
def sign : List Char → Bool × List Char
  | '-' :: s => (true, s)
  | '+' :: s => (false, s)
  | s => (false, s)

/-- The longest run of digits with single underscores between them, and what follows it. -/
def digitRun : List Char → List Nat × List Char
  | [] => ([], [])
  | '_' :: s => ([], '_' :: s)
  | c :: '_' :: s =>
    match digit? c with
    | none => ([], c :: '_' :: s)
    | some d =>
      match digitRun s with
      | ([], _) => ([d], '_' :: s)
      | (ds, rest) => (d :: ds, rest)
  | c :: s =>
    match digit? c with
    | none => ([], c :: s)
    | some d => let (ds, rest) := digitRun s; (d :: ds, rest)

/-- The integer that a text spells. A misplaced underscore goes before the number of digits, and that
before anything else. -/
def integer? (text : List Char) : Except Fault Int :=
  let (negative, s) := sign (stripPadding text)
  let (ds, rest) := digitRun s
  if rest.head? = some '_' then .error .malformed
  else if digitLimit < ds.length then .error (.tooLong ds.length)
  else if ds.isEmpty || !rest.isEmpty then .error .malformed
  else .ok (if negative then -(ofDigits ds : Int) else ofDigits ds)

/-- The double nearest to `± m · 10 ^ e`, infinite past the greatest double. -/
def nearest (negative : Bool) (m : Nat) (e : Int) : Float :=
  let size : Int := Decimal.digitCount m + e
  let x :=
    if m = 0 ∨ size < -330 then 0.0
    else if 309 < size then Binary.infinity false
    else Float.ofScientific m (e < 0) e.natAbs
  if negative then -x else x

/-- An ASCII letter in lower case; any other character as it is. -/
def lowerAscii (c : Char) : Char := if 'A' ≤ c ∧ c ≤ 'Z' then Char.ofNat (c.toNat + 32) else c

/-- The exponent part that a text ends with, zero when there is none. -/
def exponent? : List Char → Option Int
  | [] => some 0
  | c :: s =>
    if c = 'e' ∨ c = 'E' then
      let (negative, t) := sign s
      match digitRun t with
      | ([], _) => none
      | (ds, []) => some (if negative then -(ofDigits ds : Int) else ofDigits ds)
      | _ => none
    else none

/-- The value of an unsigned real number in digits. -/
def magnitude? (negative : Bool) (s : List Char) : Option Float :=
  let (whole, afterWhole) := digitRun s
  let (fraction, rest) := match afterWhole with
    | '.' :: t => digitRun t
    | t => ([], t)
  if whole.isEmpty && fraction.isEmpty then none
  else (exponent? rest).map fun e => nearest negative (ofDigits (whole ++ fraction)) (e - fraction.length)

/-- The double nearest to the real number that a text spells. -/
def real? (text : List Char) : Option Float :=
  let (negative, s) := sign (stripPadding text)
  let word := String.ofList (s.map lowerAscii)
  if word = "inf" ∨ word = "infinity" then some (Binary.infinity negative)
  else if word = "nan" then some Binary.nan
  else magnitude? negative s

/-- The greatest power of ten that is a finite double. -/
def greatestPower : Int := 308

/-- Ten to a power as a double, infinite past `greatestPower`. The two powers at which the common
approximation is not the nearest double lie one step above it. -/
def powerOfTen (p : Int) : Float :=
  if greatestPower < p then Binary.infinity false
  else
    let x := nearest false 1 p
    if p = 23 ∨ p = 210 then Float.ofBits (x.toBits + 1) else x

end RecordForge.Numeral
