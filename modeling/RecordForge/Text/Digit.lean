/-!
# Decimal digits of every script

A number may be typed with the decimal digits of any script, mixed freely. Unicode lists the digits
of a script as ten consecutive characters, so the table `zeros` of the first of each ten describes
the whole class.

* `digit?`: the value of a decimal digit, `none` for any other character.
* `ofDigits`: the number that a sequence of digit values spells in base ten.
-/

namespace RecordForge.Text

/-- The characters that stand for zero, one for each run of ten decimal digits. -/
def zeros : List Nat :=
  [0x0030, 0x0660, 0x06F0, 0x07C0, 0x0966, 0x09E6, 0x0A66, 0x0AE6, 0x0B66, 0x0BE6, 0x0C66, 0x0CE6,
   0x0D66, 0x0DE6, 0x0E50, 0x0ED0, 0x0F20, 0x1040, 0x1090, 0x17E0, 0x1810, 0x1946, 0x19D0, 0x1A80,
   0x1A90, 0x1B50, 0x1BB0, 0x1C40, 0x1C50, 0xA620, 0xA8D0, 0xA900, 0xA9D0, 0xA9F0, 0xAA50, 0xABF0,
   0xFF10, 0x104A0, 0x10D30, 0x11066, 0x110F0, 0x11136, 0x111D0, 0x112F0, 0x11450, 0x114D0, 0x11650,
   0x116C0, 0x11730, 0x118E0, 0x11950, 0x11C50, 0x11D50, 0x11DA0, 0x16A60, 0x16AC0, 0x16B50,
   0x1D7CE, 0x1D7D8, 0x1D7E2, 0x1D7EC, 0x1D7F6, 0x1E140, 0x1E2F0, 0x1E950, 0x1FBF0]

/-- The value of a decimal digit. -/
def digit? (c : Char) : Option Nat :=
  (zeros.find? fun z => z ≤ c.toNat && c.toNat < z + 10).map fun z => c.toNat - z

/-- Whether a character is a decimal digit of some script. -/
def isDigit (c : Char) : Bool := (digit? c).isSome

/-- The digits that a text starts with. -/
def leadingDigits (s : List Char) : List Char := s.takeWhile isDigit

/-- What follows the digits that a text starts with. -/
def afterDigits (s : List Char) : List Char := s.dropWhile isDigit

/-- The number spelled in base ten by digit values, most significant first. -/
def ofDigits (ds : List Nat) : Nat := ds.foldl (fun n d => 10 * n + d) 0

/-- The number spelled by the decimal digits of a text; other characters count as nothing. -/
def numberOf (s : List Char) : Nat := ofDigits (s.filterMap digit?)

/-- The value of a digit is below ten. -/
theorem digit?_lt {c : Char} {d : Nat} (h : digit? c = some d) : d < 10 := by
  obtain ⟨z, hz, rfl⟩ := Option.map_eq_some_iff.mp h
  have := List.find?_some hz
  simp only [Bool.and_eq_true, decide_eq_true_eq] at this
  omega

/-- The ASCII digits have their usual values. -/
theorem digit?_ascii : "0123456789".toList.map digit? = (List.range 10).map some := by decide

end RecordForge.Text
