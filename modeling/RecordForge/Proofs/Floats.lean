import Mathlib
import RecordForge.Number.Word

/-!
# How great the floating-point number of an integer is

* **`isInf_ofInt`**: the floating-point number of a 64-bit integer is finite.
-/

namespace RecordForge.Binary

open Float.Model Float.Model.UnpackedFloat

/-- A number that is finite, with an exponent up to a bound, or none. -/
inductive ExponentLe (bound : Int) : UnpackedFloat → Prop
  | notANumber : ExponentLe bound .notANumber
  | zero (s : Sign) : ExponentLe bound (.zero s)
  | finite {s : Sign} {m : Nat} {e : Int} {hm : 0 < m} (h : e ≤ bound) :
      ExponentLe bound (.finite s m e hm)

theorem ExponentLe.mono {a b : Int} {u : UnpackedFloat} (h : ExponentLe a u) (hab : a ≤ b) :
    ExponentLe b u := by
  cases h with
  | notANumber => exact .notANumber
  | zero s => exact .zero s
  | finite h => exact .finite (h.trans hab)

theorem ExponentLe.neg {b : Int} {u : UnpackedFloat} (h : ExponentLe b u) : ExponentLe b u.neg := by
  cases h with
  | notANumber => exact .notANumber
  | zero s => exact .zero _
  | finite h => exact .finite h

theorem ExponentLe.isInf {b : Int} {u : UnpackedFloat} (h : ExponentLe b u) : u.isInf = false := by
  cases h <;> rfl

/-! ## Rounding -/

theorem minExponent_double : Format.binary64.minExponent = -1074 := by decide

theorem mantissaBits_double : Format.binary64.mantissaBits = 53 := by decide

theorem mantissa_shiftRight_le (em : ExtendedMantissa) (n : Nat) :
    (em >>> n).mantissa ≤ em.mantissa := by
  show (Nat.repeat ExtendedMantissa.shiftRightOne n em).mantissa ≤ em.mantissa
  induction n with
  | zero => exact le_refl _
  | succ n ih => exact (Nat.div_le_self _ 2).trans ih

theorem mantissa_ofMantissaAndAccuracy (m : Nat) (a : Accuracy) :
    (ExtendedMantissa.ofMantissaAndAccuracy m a).mantissa = m := by
  unfold ExtendedMantissa.ofMantissaAndAccuracy
  split <;> rfl

theorem roundedMantissa_le (em : ExtendedMantissa) : em.roundedMantissa ≤ em.mantissa + 1 := by
  unfold ExtendedMantissa.roundedMantissa Accuracy.roundToNearestEven
  split <;> omega

theorem log2_le_of_lt {m k : Nat} (h : m < 2 ^ (k + 1)) : m.log2 ≤ k := by
  rcases Nat.eq_zero_or_pos m with rfl | hm
  · simp
  · exact Nat.le_of_lt_succ ((Nat.log2_lt hm.ne').mpr h)

theorem log2_roundedMantissa_le {m k : Nat} (hm : m < 2 ^ k) (a : Accuracy) (n : Nat) :
    (ExtendedMantissa.ofMantissaAndAccuracy m a >>> n).roundedMantissa.log2 ≤ k := by
  refine log2_le_of_lt ?_
  have h₁ := roundedMantissa_le (ExtendedMantissa.ofMantissaAndAccuracy m a >>> n)
  have h₂ := mantissa_shiftRight_le (ExtendedMantissa.ofMantissaAndAccuracy m a) n
  rw [mantissa_ofMantissaAndAccuracy] at h₂
  rw [Nat.pow_succ]
  omega

/-- Rounding raises the exponent by no more than twice the length of the mantissa. -/
theorem exponentLe_round {s : Sign} {m k : Nat} {e b : Int} (a : Accuracy) (hm : m < 2 ^ k)
    (he : e ≤ b) (hb : -1074 ≤ b) :
    ExponentLe (b + 2 * k + 1) (roundWithAccuracy Format.binary64 s m e a) := by
  have hk : m.log2 ≤ k := log2_le_of_lt (hm.trans (Nat.pow_lt_pow_right (by omega) (by omega)))
  unfold roundWithAccuracy shiftToTargetExponent shiftToExponent
  dsimp only
  split
  · exact .zero _
  · refine .finite ?_
    unfold Format.targetExponent totalExponent
    rw [minExponent_double, mantissaBits_double]
    have hround := log2_roundedMantissa_le hm a
      (max ((m.log2 : Int) + 1 + e - 53) (-1074) - e).toNat
    push_cast
    omega

theorem exponentLe_mul {s t : Sign} {m n k : Nat} {e f b : Int} {hm : 0 < m} {hn : 0 < n}
    (h : m * n < 2 ^ k) (he : e + f ≤ b) (hb : -1074 ≤ b) :
    ExponentLe (b + 2 * k + 1)
      (UnpackedFloat.mul Format.binary64 (.finite s m e hm) (.finite t n f hn)) :=
  exponentLe_round .exact h he hb

theorem exponentLe_ofNat {n : Nat} (h : n < 2 ^ 53) :
    ExponentLe 213 (UnpackedFloat.ofNat Format.binary64 n) := by
  show ExponentLe 213 (UnpackedFloat.normalize Format.binary64 n 0 .positive)
  unfold UnpackedFloat.normalize
  split
  · rename_i hc
    rw [Int.compare_eq_lt] at hc
    omega
  · exact .zero _
  · unfold UnpackedFloat.round decreaseExponent
    dsimp only
    unfold Format.targetExponent totalExponent
    rw [minExponent_double, mantissaBits_double, Int.toNat_natCast]
    generalize hs : (0 - max ((n.log2 : Int) + 1 + 0 - (53 : Nat)) (-1074)).toNat = k
    have hk : k ≤ 53 := by omega
    have hlt : n <<< k < 2 ^ 106 := by
      rw [Nat.shiftLeft_eq]
      calc n * 2 ^ k < 2 ^ 53 * 2 ^ k := Nat.mul_lt_mul_of_pos_right h (by positivity)
        _ ≤ 2 ^ 53 * 2 ^ 53 := Nat.mul_le_mul_left _ (Nat.pow_le_pow_right (by decide) hk)
        _ = 2 ^ 106 := by norm_num
    exact exponentLe_round .exact hlt (show (0 : Int) - k ≤ 0 by omega) (by decide)

theorem exponentLe_ofScientific {n : Nat} (h : n < 2 ^ 64) :
    ExponentLe 182 (UnpackedFloat.ofScientific Format.binary64 n 0) := by
  unfold UnpackedFloat.ofScientific
  split
  · exact .zero _
  · rw [if_neg (by decide), if_neg (by push_cast; omega), if_pos (le_refl _)]
    refine exponentLe_mul (k := 117) (b := -53) ?_ ?_ (by decide)
    · rw [mantissaBits_double, Nat.shiftLeft_eq, Int.toNat_zero, Nat.pow_zero, Nat.mul_one]
      omega
    · rw [mantissaBits_double]
      decide

/-! ## Bits -/

theorem exponentLe_unpack {v : BitVec Format.binary64.numBits} {b : Int} (hb : -1074 ≤ b)
    (hv : @unpackExponent Format.binary64 v = -1#_ →
      @unpackMantissa Format.binary64 v ≠ 0#_)
    (he : @unpackExponent Format.binary64 v ≠ -1#_ →
      ((@unpackExponent Format.binary64 v).toNat : Int) - 1075 ≤ b) :
    ExponentLe b (UnpackedFloat.unpack Format.binary64 v) := by
  have hbias : (Format.binary64.exponentBias : Int) + Format.binary64.mantissaBitsWithoutImplicit
      = 1075 := by decide
  unfold UnpackedFloat.unpack
  dsimp only
  rw [hbias]
  split_ifs with h₁ h₂ h₃ h₄
  · exact absurd h₂ (hv h₁)
  · exact .notANumber
  · exact .zero _
  · refine .finite ?_
    rw [h₃]
    exact hb
  · exact .finite (he h₁)

/-- Packing keeps the exponent of a number in range. -/
theorem exponentLe_unpack_pack {u : UnpackedFloat} {b : Int} (h : ExponentLe b u)
    (hl : -1074 ≤ b) (hb : b ≤ 900) :
    ExponentLe b (UnpackedFloat.unpack Format.binary64 (UnpackedFloat.pack Format.binary64 u)) := by
  have hbias : Format.binary64.exponentBias = 1023 := by decide
  cases h with
  | notANumber => exact exponentLe_unpack hl (by decide) fun hx => absurd (by decide) hx
  | zero s =>
    refine exponentLe_unpack hl (by cases s <;> decide) fun _ => ?_
    have hexp : @unpackExponent Format.binary64
        (UnpackedFloat.pack Format.binary64 (.zero s)) = 0#_ := unpackExponent_packComponents
    rw [hexp]
    exact le_trans (by decide) hl
  | finite h =>
    unfold UnpackedFloat.pack
    dsimp only
    rw [hbias, if_neg (by push_cast; omega)]
    split <;> refine exponentLe_unpack hl ?_ ?_ <;> rw [unpackExponent_packComponents] <;> intro hx
    · have hx := congrArg BitVec.toNat hx
      rw [BitVec.toNat_ofNat] at hx
      simp at hx
      omega
    · rw [BitVec.toNat_ofNat]
      refine le_trans (Int.sub_le_sub_right (Int.ofNat_le.mpr (Nat.mod_le _ _)) _) ?_
      omega
    · exact absurd hx (by decide)
    · exact le_trans (by decide) hl

/-! ## Numbers of integers -/

/-- A floating-point number that is finite, with an exponent up to a bound, or none. -/
def Bounded (b : Int) (x : Float) : Prop := ExponentLe b x.toModel.unpack

theorem bounded_pack {u : UnpackedFloat} {b : Int} (h : ExponentLe b u) (hl : -1074 ≤ b)
    (hb : b ≤ 900) : Bounded b (.ofModel (.pack u)) := exponentLe_unpack_pack h hl hb

theorem unpack_mantissa_lt {x : Float} {s : Sign} {m : Nat} {e : Int} {hm : 0 < m}
    (h : x.toModel.unpack = .finite s m e hm) : m < 2 ^ 53 := by
  unfold Float.Model.unpack UnpackedFloat.unpack at h
  dsimp only at h
  split_ifs at h
  · cases h
    exact (BitVec.isLt _).trans (by decide)
  · cases h
    exact BitVec.isLt _

theorem unpack_one : (Float.ofBits 0x3FF0000000000000).toModel.unpack =
    .finite .positive (2 ^ 52) (-52) (by decide) := by rfl

theorem Bounded.mul_one {x : Float} {b : Int} (h : Bounded b x) (hl : -1074 ≤ b) (hb : b ≤ 600) :
    Bounded (b + 211) (x * Float.ofBits 0x3FF0000000000000) := by
  refine bounded_pack ?_ (by omega) (by omega)
  rw [unpack_one]
  have hm := @unpack_mantissa_lt x
  unfold Bounded at h
  generalize x.toModel.unpack = u at h hm
  cases h with
  | notANumber => exact .notANumber
  | zero s => exact .zero _
  | finite he =>
    refine ExponentLe.mono (exponentLe_mul (k := 105) ?_ (show _ + -52 ≤ b by omega) hl) ?_
    · exact lt_of_lt_of_le (Nat.mul_lt_mul_of_pos_right (hm rfl) (by decide)) (by decide)
    · push_cast
      omega

theorem bounded_ofNat {n : Nat} (h : n < 2 ^ 64) : Bounded 424 (Float.ofNat n) := by
  show Bounded 424 (Float.ofScientific n false 0)
  unfold Float.ofScientific
  split
  · rename_i hn
    have hnat : n.toUInt64.toNat = n := Nat.mod_eq_of_lt h
    have hx : Bounded 213 n.toUInt64.toFloat := by
      refine bounded_pack (u := UnpackedFloat.ofNat Format.binary64 n.toUInt64.toNat) ?_
        (by decide) (by decide)
      rw [hnat]
      exact exponentLe_ofNat hn.1
    exact hx.mul_one (by decide) (by decide)
  · exact bounded_pack ((exponentLe_ofScientific h).mono (by decide)) (by decide) (by decide)

/-- **The floating-point number of a 64-bit integer is finite.** -/
theorem isInf_ofInt {n : Int} (h : Word.IsLong n) : (Float.ofInt n).isInf = false := by
  have hn : n.natAbs < 2 ^ 64 := by
    simp only [Word.IsLong, Word.minLong, Word.maxLong] at h
    omega
  cases n with
  | ofNat n => exact ExponentLe.isInf (bounded_ofNat hn)
  | negSucc n =>
    exact ExponentLe.isInf (bounded_pack (ExponentLe.neg (bounded_ofNat hn)) (by decide) (by decide))

end RecordForge.Binary
