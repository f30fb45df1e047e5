/-!
# Arithmetic of signed words

Generated integers follow the two's complement arithmetic of 64-bit words, written here on
unbounded integers: a result is computed exactly and then reduced.

* `wrap`: the representative of an integer modulo `2 ^ 64` in the signed range.
* `magnitude`: the absolute value, which leaves the least word as it is.
* `remainder`: the remainder with the sign of the dividend.
* `saturate`: a double cut toward zero and clamped to the signed range.
-/

namespace RecordForge.Word

/-- The least signed 32-bit word. -/
def minInt : Int := -0x80000000

/-- The greatest signed 32-bit word. -/
def maxInt : Int := 0x7FFFFFFF

/-- The least signed 64-bit word. -/
def minLong : Int := -0x8000000000000000

/-- The greatest signed 64-bit word. -/
def maxLong : Int := 0x7FFFFFFFFFFFFFFF

/-- Whether an integer is a signed 32-bit word. -/
def IsInt (n : Int) : Prop := minInt ≤ n ∧ n ≤ maxInt

/-- Whether an integer is a signed 64-bit word. -/
def IsLong (n : Int) : Prop := minLong ≤ n ∧ n ≤ maxLong

instance (n : Int) : Decidable (IsInt n) := inferInstanceAs (Decidable (_ ∧ _))

instance (n : Int) : Decidable (IsLong n) := inferInstanceAs (Decidable (_ ∧ _))

/-- How many 64-bit words there are, `2 ^ 64`. -/
def count : Int := 0x10000000000000000

/-- The signed 64-bit word with the same residue modulo `2 ^ 64`. -/
def wrap (n : Int) : Int := (n - minLong) % count + minLong

/-- The absolute value as a word computes it: the least word has none and stays. -/
def magnitude (n : Int) : Int := if n = minLong then n else n.natAbs

/-- The remainder of a division that cuts toward zero. -/
def remainder (a b : Int) : Int := a.tmod b

/-- `wrap` yields a signed word. -/
theorem isLong_wrap (n : Int) : IsLong (wrap n) := by
  simp only [IsLong, wrap, count, minLong, maxLong]
  omega

/-- `wrap` leaves a signed word as it is. -/
theorem wrap_of_isLong {n : Int} (h : IsLong n) : wrap n = n := by
  simp only [IsLong, wrap, count, minLong, maxLong] at *
  omega

/-- `wrap` changes an integer by a multiple of `2 ^ 64`. -/
theorem wrap_emod (n : Int) : wrap n % count = n % count := by
  simp only [wrap, count, minLong]
  omega

/-- A 32-bit word is a 64-bit word. -/
theorem IsInt.isLong {n : Int} (h : IsInt n) : IsLong n := by
  simp only [IsInt, IsLong, minInt, maxInt, minLong, maxLong] at *
  omega

/-- A positive integer is a positive natural. -/
theorem toNat_pos {n : Int} (h : 0 < n) : 0 < n.toNat := by omega

end RecordForge.Word
