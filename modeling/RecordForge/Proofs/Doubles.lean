import Mathlib
import RecordForge.Number.Binary

/-!
# Doubles and their fields

A double is its bits, and its bits are a sign, an exponent and a fraction. What is read off them and
what is made of them fit together.

* `exists_fields`: a double is made of its fields, unless it is no number.
* `decode?_ofFields`, `decode?_encode`: the exact values of what is made.
* **`encode_of_decode?`**: the exact value of a double makes it again.
* `encode_shift`: only the value of a dyadic number counts, not how it is written.
-/

namespace RecordForge.Binary

open Float.Model Float.Model.UnpackedFloat

/-! ## Bit patterns -/

theorem toNat_unpackMantissa (v : BitVec Format.binary64.numBits) :
    (@unpackMantissa Format.binary64 v).toNat = v.toNat % 2 ^ 52 := by
  simp [unpackMantissa]

theorem toNat_unpackExponent (v : BitVec Format.binary64.numBits) :
    (@unpackExponent Format.binary64 v).toNat = v.toNat / 2 ^ 52 % 2 ^ 11 := by
  simp [unpackExponent, Nat.shiftRight_eq_div_pow]

theorem toBits_ofBits {b : UInt64} (h : Format.binary64.Valid b.toBitVec) :
    (Float.ofBits b).toBits = b := by
  show UInt64.ofBitVec (UnpackedFloat.pack Format.binary64
    (UnpackedFloat.unpack Format.binary64 b.toBitVec)) = b
  rw [pack_unpack_of_valid h]

/-- Bits are valid unless they are those of a number that is none. -/
theorem valid_of_fields {v : BitVec Format.binary64.numBits}
    (h : v.toNat / 2 ^ 52 % 2 ^ 11 = 2047 → v.toNat % 2 ^ 52 = 0) : Format.binary64.Valid v := by
  refine ⟨fun he hm => absurd ?_ hm⟩
  refine BitVec.eq_of_toNat_eq ?_
  rw [toNat_unpackMantissa]
  refine h ?_
  rw [← toNat_unpackExponent, he]
  rfl

/-! ## Fields -/

theorem twoTo_eq (n : Nat) : twoTo n = 2 ^ n := rfl

theorem sign_eq (n : Bool) (place : Nat) : (if n then twoTo place else 0) = n.toNat * 2 ^ place := by
  cases n
  · exact (Nat.zero_mul _).symm
  · exact (Nat.one_mul _).symm

theorem beq_one_toNat (n : Bool) : (n.toNat == 1) = n := by
  cases n <;> rfl

/-- The bits of a number are those of its fields. -/
theorem toNat_toBits_ofFields {n : Bool} {e f : Nat} (he : e < 2048) (hf : f < 2 ^ 52)
    (hv : e = 2047 → f = 0) :
    (ofFields n e f).toBits.toNat = n.toNat * 2 ^ 63 + e * 2 ^ 52 + f := by
  have hsign := Bool.toNat_le n
  have hnat : (UInt64.ofNat (n.toNat * 2 ^ 63 + e * 2 ^ 52 + f)).toNat =
      n.toNat * 2 ^ 63 + e * 2 ^ 52 + f := by
    rw [UInt64.toNat_ofNat']
    omega
  unfold ofFields
  rw [sign_eq, twoTo_eq, toBits_ofBits, hnat]
  refine valid_of_fields ?_
  rw [UInt64.toNat_toBitVec, hnat]
  omega

theorem isNegative_ofFields {n : Bool} {e f : Nat} (he : e < 2048) (hf : f < 2 ^ 52)
    (hv : e = 2047 → f = 0) : isNegative (ofFields n e f) = n := by
  have hsign : (n.toNat * 2 ^ 63 + e * 2 ^ 52 + f) / 2 ^ 63 = n.toNat := by omega
  rw [isNegative, toNat_toBits_ofFields he hf hv, twoTo_eq, hsign, beq_one_toNat]

/-- The exact value of the number with some fields. -/
theorem decode?_ofFields {n : Bool} {e f : Nat} (he : e < 2047) (hf : f < 2 ^ 52) :
    decode? (ofFields n e f) =
      some (if e = 0 then ⟨n, f, -1074⟩ else ⟨n, f + 2 ^ 52, (e : Int) - 1075⟩) := by
  have hv : e = 2047 → f = 0 := fun h => absurd he (by omega)
  have hexp : (n.toNat * 2 ^ 63 + e * 2 ^ 52 + f) / 2 ^ 52 % 2 ^ 11 = e := by omega
  have hfrac : (n.toNat * 2 ^ 63 + e * 2 ^ 52 + f) % 2 ^ 52 = f := by omega
  unfold decode?
  dsimp only
  rw [toNat_toBits_ofFields (by omega) hf hv, isNegative_ofFields (by omega) hf hv, twoTo_eq,
    twoTo_eq, hexp, hfrac, if_neg (by omega)]
  split <;> rfl

theorem decode?_infinity (n : Bool) : decode? (infinity n) = none := by
  cases n <;> rfl

/-- A number is made of its fields, unless it is none. -/
theorem exists_fields (x : Float) : x = nan ∨
    ∃ e f, e < 2048 ∧ f < 2 ^ 52 ∧ (e = 2047 → f = 0) ∧ x = ofFields (isNegative x) e f := by
  have hlt : x.toBits.toNat < 2 ^ 64 := x.toBits.toBitVec.isLt
  by_cases hv : x.toBits.toNat / 2 ^ 52 % 2 ^ 11 = 2047 → x.toBits.toNat % 2 ^ 52 = 0
  · refine Or.inr ⟨x.toBits.toNat / 2 ^ 52 % 2 ^ 11, x.toBits.toNat % 2 ^ 52, by omega, by omega, hv, ?_⟩
    have hsign : (isNegative x).toNat = x.toBits.toNat / 2 ^ 63 := by
      unfold isNegative
      rw [twoTo_eq]
      have : x.toBits.toNat / 2 ^ 63 = 0 ∨ x.toBits.toNat / 2 ^ 63 = 1 := by omega
      rcases this with h | h <;> rw [h] <;> rfl
    have hsum : (isNegative x).toNat * 2 ^ 63 + x.toBits.toNat / 2 ^ 52 % 2 ^ 11 * 2 ^ 52 +
        x.toBits.toNat % 2 ^ 52 = x.toBits.toNat := by omega
    rw [ofFields, sign_eq, twoTo_eq, hsum, UInt64.ofNat_toNat, Float.ofBits_toBits]
  · rw [Classical.not_imp] at hv
    refine Or.inl ?_
    have hnan : x.toBits.toBitVec = packedNaN Format.binary64 := by
      refine x.toModel.valid.eq_packedNaN ?_ ?_
      · refine BitVec.eq_of_toNat_eq ?_
        rw [toNat_unpackExponent]
        exact hv.1
      · intro hm
        have := congrArg BitVec.toNat hm
        rw [toNat_unpackMantissa] at this
        exact hv.2 this
    rw [← Float.ofBits_toBits x, ← UInt64.ofBitVec_toBitVec x.toBits, hnan]
    rfl

/-- A number that is not finite is infinite, or none. -/
theorem eq_of_decode?_none {x : Float} (h : decode? x = none) : x = nan ∨ x = infinity (isNegative x) := by
  rcases exists_fields x with hx | ⟨e, f, he, hf, hv, hx⟩
  · exact Or.inl hx
  · refine Or.inr ?_
    by_cases hmax : e = 2047
    · rw [hv hmax, hmax] at hx
      exact hx
    · rw [hx, decode?_ofFields (by omega) hf] at h
      cases h

/-! ## Numbers that are none -/

theorem isNaN_nan : nan.isNaN = true := rfl

theorem isNaN_ofFields {n : Bool} {e f : Nat} (he : e < 2048) (hf : f < 2 ^ 52)
    (hv : e = 2047 → f = 0) : (ofFields n e f).isNaN = false := by
  have hsign := Bool.toNat_le n
  have hbits : Float.nan.toBits.toNat = 2047 * 2 ^ 52 + 2 ^ 51 := by decide
  rw [Float.isNaN_eq_decide_eq_nan, decide_eq_false_iff_not]
  intro h
  rw [← h, toNat_toBits_ofFields he hf hv] at hbits
  omega

theorem isNaN_infinity (n : Bool) : (infinity n).isNaN = false :=
  isNaN_ofFields (by decide) (by decide) fun _ => rfl

theorem isNaN_of_decode? {x : Float} {d : Dyadic} (h : decode? x = some d) : x.isNaN = false := by
  rcases exists_fields x with hx | ⟨e, f, he, hf, hv, hx⟩
  · rw [hx] at h
    cases h
  · rw [hx]
    exact isNaN_ofFields he hf hv

/-! ## Encoding -/

/-- The places by which a number is moved up to be encoded. -/
def lift (d : Dyadic) : Nat := min (52 - d.m.log2) (d.q + 1074).toNat

theorem encode_eq {d : Dyadic} (hm : d.m ≠ 0) :
    encode d = if d.m * 2 ^ lift d < 2 ^ 52 then ofFields d.negative 0 (d.m * 2 ^ lift d)
      else ofFields d.negative (d.q - lift d + 1075).toNat (d.m * 2 ^ lift d - 2 ^ 52) := by
  rw [encode, if_neg hm]
  rfl

theorem encode_zero (n : Bool) (q : Int) : encode ⟨n, 0, q⟩ = ofFields n 0 0 := rfl

/-- The exact value of a number encodes it. -/
theorem encode_of_decode? {x : Float} {d : Dyadic} (h : decode? x = some d) : encode d = x := by
  rcases exists_fields x with hx | ⟨e, f, he, hf, hv, hx⟩
  · rw [hx] at h
    cases h
  · by_cases hmax : e = 2047
    · rw [hx, hv hmax, hmax, ← infinity, decode?_infinity] at h
      cases h
    · rw [hx, decode?_ofFields (by omega) hf] at h
      generalize isNegative x = n at h hx
      obtain rfl := Option.some.inj h
      rw [hx]
      by_cases hz : e = 0
      · rw [if_pos hz]
        by_cases hfz : f = 0
        · rw [hfz, hz]
          rfl
        · have hlift : lift ⟨n, f, -1074⟩ = 0 := by
            unfold lift
            dsimp only
            omega
          rw [encode_eq hfz, hlift, Nat.pow_zero, Nat.mul_one, if_pos hf, hz]
      · have hlog : (f + 2 ^ 52).log2 = 52 := by
          rw [Nat.log2_eq_iff (by omega)]
          omega
        have hlift : lift ⟨n, f + 2 ^ 52, (e : Int) - 1075⟩ = 0 := by
          unfold lift
          dsimp only
          rw [hlog]
          rfl
        have hexp : ((e : Int) - 1075 - (0 : Nat) + 1075).toNat = e := by omega
        rw [if_neg hz, encode_eq (show f + 2 ^ 52 ≠ 0 by omega), hlift, Nat.pow_zero, Nat.mul_one,
          if_neg (by dsimp only; omega)]
        dsimp only
        rw [hexp, Nat.add_sub_cancel]

theorem log2_mul_pow {m : Nat} (hm : m ≠ 0) (a : Nat) : (m * 2 ^ a).log2 = m.log2 + a := by
  rw [Nat.log2_eq_iff (by positivity), Nat.pow_add, Nat.add_right_comm, Nat.pow_add]
  exact ⟨Nat.mul_le_mul_right _ (Nat.log2_self_le hm),
    Nat.mul_lt_mul_of_pos_right Nat.lt_log2_self (by positivity)⟩

/-- Moving places from the factor to the exponent does not change what is encoded. -/
theorem encode_shift {n : Bool} {m a : Nat} {q : Int} (hm : m * 2 ^ a < 2 ^ 53) (hq : -1074 ≤ q) :
    encode ⟨n, m * 2 ^ a, q⟩ = encode ⟨n, m, q + a⟩ := by
  by_cases hz : m = 0
  · rw [hz, Nat.zero_mul, encode_zero, encode_zero]
  · have hz' : m * 2 ^ a ≠ 0 := by positivity
    have hlog : m.log2 + a ≤ 52 := by
      rw [← log2_mul_pow hz]
      exact Nat.le_of_lt_succ ((Nat.log2_lt hz').mpr hm)
    have hlift : lift ⟨n, m, q + a⟩ = a + lift ⟨n, m * 2 ^ a, q⟩ := by
      unfold lift
      dsimp only
      rw [log2_mul_pow hz]
      omega
    have hmul : m * 2 ^ a * 2 ^ lift ⟨n, m * 2 ^ a, q⟩ = m * 2 ^ lift ⟨n, m, q + a⟩ := by
      rw [hlift, Nat.mul_assoc, ← Nat.pow_add]
    have hexp : q - lift ⟨n, m * 2 ^ a, q⟩ = q + a - lift ⟨n, m, q + a⟩ := by
      rw [hlift]
      omega
    rw [encode_eq hz', encode_eq hz]
    dsimp only
    rw [hmul, hexp]

/-- The exact value of an encoded number is the number, moved up. -/
theorem decode?_encode {d : Dyadic} (hm : d.m ≠ 0) (hlow : -1074 ≤ d.q) (hlog : d.m.log2 ≤ 52)
    (hhigh : d.q + d.m.log2 < 1024) :
    decode? (encode d) = some ⟨d.negative, d.m * 2 ^ lift d, d.q - lift d⟩ := by
  have hlogm : (d.m * 2 ^ lift d).log2 = d.m.log2 + lift d := log2_mul_pow hm _
  have hlift : lift d = min (52 - d.m.log2) (d.q + 1074).toNat := rfl
  have hz : d.m * 2 ^ lift d ≠ 0 := by positivity
  have hlt : d.m * 2 ^ lift d < 2 ^ 53 := (Nat.log2_lt hz).mp (by omega)
  rw [encode_eq hm]
  split
  · rename_i hsmall
    have hlow : (d.m * 2 ^ lift d).log2 < 52 := (Nat.log2_lt hz).mpr hsmall
    rw [decode?_ofFields (by omega) hsmall, if_pos rfl]
    congr 2
    omega
  · rename_i hbig
    have hle : 52 ≤ (d.m * 2 ^ lift d).log2 := by
      rw [Nat.le_log2 hz]
      omega
    rw [decode?_ofFields (by omega) (by omega), if_neg (by omega)]
    congr 2
    · omega
    · omega

end RecordForge.Binary
