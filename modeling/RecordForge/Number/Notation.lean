import RecordForge.Number.Shortest

/-!
# Numbers as text

* `Notation.shortest`: the shortest name of a number, positional between two powers of ten and
  scientific outside of them. `doubles` and `singles` are the two notations in use.
* `fixed`: a number with a fixed count of decimal places, a half going to the even neighbour.
* `grouped`: an integer with a comma between groups of three digits.
-/

namespace RecordForge.Decimal

open Binary

/-- How the numbers of a format are written. -/
structure Style where
  layout : Layout
  /-- Numbers from `10 ^ leastPlace` up to but not including `10 ^ endPlace` are positional. -/
  leastPlace : Int
  endPlace : Int

/-- Doubles are positional from `10 ^ -4` up to `10 ^ 16`. -/
def doubles : Style := ⟨double, -4, 16⟩

/-- Single-precision numbers are positional from `10 ^ -4` up to `10 ^ 6`. -/
def singles : Style := ⟨single, -4, 6⟩

/-- Whether `10 ^ e ≤ n / d`. -/
def atLeastPower (n d : Nat) (e : Int) : Bool := d * tenTo e.toNat ≤ n * tenTo (-e).toNat

/-- An integer in decimal, with a minus sign when it is negative. -/
def integer (n : Int) : String :=
  String.ofList ((if n < 0 then ['-'] else []) ++ digitsOf n.natAbs)

/-- Digits with a point after the first `place` of them, zeros filled in, at least one digit on each
side of the point. -/
def positional (digits : List Char) (place : Int) : List Char :=
  if place ≤ 0 then
    '0' :: '.' :: List.replicate (-place).toNat '0' ++ digits
  else
    let whole := digits.take place.toNat ++ List.replicate (place.toNat - digits.length) '0'
    let rest := digits.drop place.toNat
    whole ++ '.' :: (if rest.isEmpty then ['0'] else rest)

/-- Digits with a point after the first of them, if there are more, and the exponent of that first
digit with a sign and at least two digits. -/
def scientific (digits : List Char) (place : Int) : List Char :=
  let exponent := place - 1
  let mantissa := match digits with
    | [] => []
    | [d] => [d]
    | d :: rest => d :: '.' :: rest
  let width := digitsOf exponent.natAbs
  mantissa ++ ['e', if exponent < 0 then '-' else '+'] ++
    (if width.length < 2 then '0' :: width else width)

/-- The shortest name of a number in a style; `inf`, `-inf` and `nan` for what is no number. -/
def shortestText (style : Style) (x : Float) : String :=
  match decode? x with
  | none =>
    if x.isNaN then "nan" else if isNegative x then "-inf" else "inf"
  | some d =>
    let sign := if d.negative then ['-'] else []
    if d.m = 0 then String.ofList (sign ++ ['0', '.', '0'])
    else
      -- the number on the grid of the style's own format
      let r := roundTo style.layout d
      let lift := min (style.layout.precision - 1 - r.m.log2) (r.q - style.layout.leastExponent).toNat
      let m := r.m * twoTo lift
      let q := r.q - lift
      let name := shortest style.layout m q
      let digits := digitsOf name.digits
      let place : Int := digits.length + name.exponent
      let n := m * twoTo q.toNat
      let den := twoTo (-q).toNat
      let body :=
        if atLeastPower n den style.leastPlace && !atLeastPower n den style.endPlace
        then positional digits place else scientific digits place
      String.ofList (sign ++ body)

/-- A finite number with exactly `places` decimals, a half going to the even neighbour. -/
def fixed (places : Nat) (x : Float) : String :=
  match decode? x with
  | none => if x.isNaN then "nan" else if isNegative x then "-inf" else "inf"
  | some d =>
    let n := roundDiv (d.m * twoTo d.q.toNat * tenTo places) (twoTo (-d.q).toNat)
    let fraction := digitsOf (n % tenTo places)
    String.ofList ((if d.negative then ['-'] else []) ++ digitsOf (n / tenTo places) ++
      '.' :: List.replicate (places - fraction.length) '0' ++ fraction)

/-- Digits, least significant first, with a comma after each group of three that others follow. -/
def groupReversed : List Char → List Char
  | a :: b :: c :: d :: rest => a :: b :: c :: ',' :: groupReversed (d :: rest)
  | ds => ds

/-- An integer with commas between groups of three digits. -/
def grouped (n : Int) : String :=
  String.ofList ((if n < 0 then ['-'] else []) ++ (groupReversed (digitsOf n.natAbs).reverse).reverse)

end RecordForge.Decimal
