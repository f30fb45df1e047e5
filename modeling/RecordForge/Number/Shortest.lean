import RecordForge.Number.Binary

/-!
# The shortest decimal that reads back

A binary number is the nearest number of its format for a whole interval of reals. Among the
decimals in that interval the ones with the fewest digits are its shortest names, and of those the
nearest to the number is taken. On the grid of decimals with `n` digits only the two neighbours of
the number have to be looked at: if any point of the grid lies in the interval, one of them does.

* `Interval`: the reals that round to a number, scaled to naturals over a common denominator.
* `decimalPlace`: the power of ten just above a positive rational.
* `shortest`: the digits and the exponent of the shortest name.
-/

namespace RecordForge.Decimal

open Binary

/-- The number `digits · 10 ^ exponent`. -/
structure Scaled where
  digits : Nat
  exponent : Int
  deriving DecidableEq, Repr

/-- The decimal digits of a natural, without a sign or leading zeros. -/
def digitsOf (n : Nat) : List Char := Nat.toDigits 10 n

/-- How many decimal digits a natural has. -/
def digitCount (n : Nat) : Nat := (digitsOf n).length

/-- The reals that round to a positive number: from `low / den` to `high / den` around
`value / den`, the ends included when `closed`. -/
structure Interval where
  low : Nat
  value : Nat
  high : Nat
  den : Nat
  closed : Bool

/-- The interval of a positive number of a format. Below a power of two the grid is twice as fine,
so the gap to the lower neighbour is half the gap to the upper one. -/
def interval (l : Layout) (m : Nat) (q : Int) : Interval :=
  let below := if m = twoTo (l.precision - 1) ∧ l.leastExponent < q then 1 else 2
  let scale := twoTo (q - 2).toNat
  ⟨(4 * m - below) * scale, 4 * m * scale, (4 * m + 2) * scale, twoTo (2 - q).toNat, m % 2 == 0⟩

/-- The least `k` with `n / d < 10 ^ k`, for positive `n` and `d`. -/
def decimalPlace (n d : Nat) : Int :=
  let k : Int := (digitCount n : Int) - digitCount d
  if n * tenTo (-k).toNat < d * tenTo k.toNat then k else k + 1

/-- The interval with everything divided by `10 ^ e`. -/
def Interval.rescale (i : Interval) (e : Int) : Interval :=
  let up := tenTo (-e).toNat
  { i with low := i.low * up, value := i.value * up, high := i.high * up, den := i.den * tenTo e.toNat }

/-- Whether a natural lies in the interval. -/
def Interval.has (i : Interval) (c : Nat) : Bool :=
  if i.closed then i.low ≤ c * i.den && c * i.den ≤ i.high
  else i.low < c * i.den && c * i.den < i.high

/-- The natural of the interval nearest to its value, if one of the value's neighbours lies in it;
an exact half goes to the even neighbour. -/
def Interval.nearest? (i : Interval) : Option Nat :=
  let down := i.value / i.den
  let twice := 2 * (i.value % i.den)
  let upFirst := i.den < twice || (twice == i.den && down % 2 == 1)
  let first := if upFirst then down + 1 else down
  let second := if upFirst then down else down + 1
  if i.has first then some first else if i.has second then some second else none

/-- A decimal without trailing zeros in its digits; `fuel` bounds how many are dropped. -/
def Scaled.strip (d : Scaled) : Nat → Scaled
  | 0 => d
  | fuel + 1 =>
    if d.digits ≠ 0 ∧ d.digits % 10 = 0 then strip ⟨d.digits / 10, d.exponent + 1⟩ fuel else d

/-- The shortest decimal that rounds to the positive number `m · 2 ^ q` of a format. Seventeen digits
are enough for every double. -/
def shortest (l : Layout) (m : Nat) (q : Int) : Scaled :=
  let i := interval l m q
  let k := decimalPlace i.value i.den
  let name? := (List.range 17).findSome? fun n =>
    let e := k - (n + 1 : Nat)
    (i.rescale e).nearest?.map fun c => Scaled.mk c e
  match name? with
  | some d => d.strip 20
  | none => ⟨(i.rescale (k - 17)).value / (i.rescale (k - 17)).den, k - 17⟩

end RecordForge.Decimal
