import RecordForge.Number.Power
import RecordForge.Number.Word

/-!
# Binary floating-point numbers, exactly

A finite double is `± m · 2 ^ q` for naturals `m` and an integer `q`. The functions below read that
form off the bits of a double, so that everything printed or rounded is computed with naturals.

* `Dyadic`, `decode?`: the exact value of a finite double.
* `Layout`: the parameters of a binary format; `double` and `single` are the two in use.
* `roundTo`: the nearest number of a format, halves going to the even neighbour.
* `toSingle`: the single-precision number nearest to a double, as a double.
* `saturate`: a double cut toward zero and clamped to the signed 64-bit range.
-/

namespace RecordForge.Binary

/-- The number `m · 2 ^ q`, negated when `negative`. -/
structure Dyadic where
  negative : Bool
  m : Nat
  q : Int
  deriving DecidableEq, Repr

/-- A binary format: how many bits a number has and where its grid ends. -/
structure Layout where
  /-- Bits of a normal number, its leading one included. -/
  precision : Nat
  /-- The exponent of the finest grid step. -/
  leastExponent : Int
  /-- The exponent of the coarsest grid step. -/
  greatestExponent : Int

/-- The format of double-precision numbers. -/
def double : Layout := ⟨53, -1074, 971⟩

/-- The format of single-precision numbers. -/
def single : Layout := ⟨24, -149, 104⟩

/-- The sign bit of a double. -/
def isNegative (x : Float) : Bool := x.toBits.toNat / twoTo 63 == 1

/-- The exact value of a finite double, on the grid step of its binade. -/
def decode? (x : Float) : Option Dyadic :=
  let bits : Nat := x.toBits.toNat
  let exponent : Nat := bits / twoTo 52 % twoTo 11
  let fraction : Nat := bits % twoTo 52
  if exponent = 2047 then none
  else if exponent = 0 then some ⟨isNegative x, fraction, -1074⟩
  else some ⟨isNegative x, fraction + twoTo 52, (exponent : Int) - 1075⟩

/-- The double with the given sign bit, exponent field and fraction field. -/
def ofFields (negative : Bool) (exponent fraction : Nat) : Float :=
  Float.ofBits (UInt64.ofNat ((if negative then twoTo 63 else 0) + exponent * twoTo 52 + fraction))

/-- The infinity of a sign. -/
def infinity (negative : Bool) : Float := ofFields negative 2047 0

/-- The quiet number that is none. -/
def nan : Float := ofFields false 2047 (twoTo 51)

/-- The double `± m · 2 ^ q` for `m < 2 ^ 53` and `-1074 ≤ q ≤ 971`. -/
def encode (d : Dyadic) : Float :=
  if d.m = 0 then ofFields d.negative 0 0
  else
    -- bring the leading one to place 52, or the step to the finest one
    let up := min (52 - d.m.log2) (d.q + 1074).toNat
    let m := d.m * twoTo up
    let q := d.q - up
    if m < twoTo 52 then ofFields d.negative 0 m
    else ofFields d.negative (q + 1075).toNat (m - twoTo 52)

/-- The nearest natural to `n / d`, a half going to the even neighbour. -/
def roundDiv (n d : Nat) : Nat :=
  let quotient := n / d
  let twice := 2 * (n % d)
  if twice < d then quotient
  else if d < twice then quotient + 1
  else quotient + quotient % 2

/-- The number nearest to a dyadic number on the grid that the format has there, a half going to
the even neighbour. -/
def roundTo (l : Layout) (d : Dyadic) : Dyadic :=
  let step := max l.leastExponent (d.q + d.m.log2 + 1 - l.precision)
  if step ≤ d.q then d else ⟨d.negative, roundDiv d.m (twoTo (step - d.q).toNat), step⟩

/-- Whether a number lies below the power of two that ends the range of the format. -/
def InRange (l : Layout) (d : Dyadic) : Prop :=
  d.m = 0 ∨ d.q + d.m.log2 < l.greatestExponent + l.precision

instance (l : Layout) (d : Dyadic) : Decidable (InRange l d) := inferInstanceAs (Decidable (_ ∨ _))

/-- The single-precision number nearest to a double, as a double; one out of range is infinite. -/
def toSingle (x : Float) : Float :=
  match decode? x with
  | none => x
  | some d =>
    let r := roundTo single d
    if InRange single r then encode r else infinity d.negative

/-- The integer part of a finite double, cut toward zero. -/
def truncate (d : Dyadic) : Int :=
  let n : Nat := if 0 ≤ d.q then d.m * twoTo d.q.toNat else d.m / twoTo (-d.q).toNat
  if d.negative then -n else n

/-- A double cut toward zero and clamped to the signed 64-bit range; zero for what is no number. -/
def saturate (x : Float) : Int :=
  if x.isNaN then 0
  else match decode? x with
    | none => if isNegative x then Word.minLong else Word.maxLong
    | some d => max Word.minLong (min Word.maxLong (truncate d))

end RecordForge.Binary
