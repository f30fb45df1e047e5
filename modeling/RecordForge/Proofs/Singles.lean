import RecordForge.Avro.Encoding
import RecordForge.Proofs.Doubles

/-!
# Numbers of single precision

A number of single precision is written as 32 bits. They are found by rounding twice: a double to the
nearest number of single precision, and the exact value of that again. The second time nothing is lost.

* `isSingle_roundTo`: what rounding leads to.
* `roundTo_lifted`: a number of single precision is rounded to itself.
* `ofSingleBits`, `Make`: the number that 32 bits make.
* **`make_singleBits`**: the bits of a double make the nearest number of single precision.
-/

namespace RecordForge.Binary

/-! ## Rounding -/

theorem roundDiv_le (n d : Nat) : roundDiv n d ≤ n / d + 1 := by
  unfold roundDiv
  dsimp only
  split_ifs <;> omega

theorem roundDiv_mul (c : Nat) {d : Nat} (hd : 0 < d) : roundDiv (c * d) d = c := by
  unfold roundDiv
  dsimp only
  rw [Nat.mul_div_cancel _ hd, Nat.mul_mod_left, if_pos (by omega)]

/-- A number of single precision: its factor has no more than the bits of one. -/
structure IsSingle (d : Dyadic) : Prop where
  factor : d.m ≤ 2 ^ 24
  exponent : -149 ≤ d.q

/-- The exponent that a number has after it is rounded. -/
def stepOf (d : Dyadic) : Int := max (-149) (d.q + d.m.log2 + 1 - 24)

theorem roundTo_single (d : Dyadic) : roundTo single d =
    if stepOf d ≤ d.q then d
    else ⟨d.negative, roundDiv d.m (2 ^ (stepOf d - d.q).toNat), stepOf d⟩ := rfl

theorem negative_roundTo (d : Dyadic) : (roundTo single d).negative = d.negative := by
  rw [roundTo_single]
  split <;> rfl

theorem roundTo_zero (n : Bool) : roundTo single ⟨n, 0, -1074⟩ = ⟨n, 0, -149⟩ := by
  have hdiv := roundDiv_mul 0 (show 0 < 2 ^ 925 by positivity)
  have hstep : stepOf ⟨n, 0, -1074⟩ = -149 := rfl
  have hplaces : (-149 - -1074 : Int).toNat = 925 := rfl
  rw [roundTo_single, hstep]
  dsimp only
  rw [if_neg (by decide)]
  rw [Nat.zero_mul] at hdiv
  rw [hplaces, hdiv]

theorem isSingle_roundTo (d : Dyadic) : IsSingle (roundTo single d) := by
  have hstep : stepOf d = max (-149) (d.q + d.m.log2 + 1 - 24) := rfl
  rw [roundTo_single]
  split
  · refine ⟨?_, by omega⟩
    have hlt : d.m < 2 ^ 24 :=
      Nat.lt_of_lt_of_le Nat.lt_log2_self (Nat.pow_le_pow_right (by decide) (by omega))
    exact Nat.le_of_lt hlt
  · refine ⟨?_, by dsimp only; omega⟩
    dsimp only
    generalize hk : (stepOf d - d.q).toNat = k
    have hlt : d.m < 2 ^ (24 + k) :=
      Nat.lt_of_lt_of_le Nat.lt_log2_self (Nat.pow_le_pow_right (by decide) (by omega))
    have hdiv : d.m / 2 ^ k < 2 ^ 24 := by
      rw [Nat.div_lt_iff_lt_mul (by positivity), ← Nat.pow_add]
      exact hlt
    exact (roundDiv_le _ _).trans hdiv

/-- A number of single precision, with its factor moved up, is rounded to itself. -/
theorem roundTo_lifted {d : Dyadic} {u : Nat} (hd : IsSingle d) (hm : d.m ≠ 0)
    (hu : d.m * 2 ^ u < 2 ^ 53) (hq : -1074 ≤ d.q - u) :
    ∃ m q, roundTo single ⟨d.negative, d.m * 2 ^ u, d.q - u⟩ = ⟨d.negative, m, q⟩ ∧ m ≠ 0 ∧
      m < 2 ^ 24 ∧ -149 ≤ q ∧ q + m.log2 = d.q + d.m.log2 ∧ encode ⟨d.negative, m, q⟩ = encode d := by
  obtain ⟨n, m, q⟩ := d
  obtain ⟨hfactor, hexponent⟩ := hd
  dsimp only at *
  have hlog : (m * 2 ^ u).log2 = m.log2 + u := log2_mul_pow hm u
  have hstep : stepOf ⟨n, m * 2 ^ u, q - u⟩ = max (-149) (q + m.log2 - 23) := by
    unfold stepOf
    dsimp only
    rw [hlog]
    push_cast
    omega
  have hencode : encode ⟨n, m * 2 ^ u, q - u⟩ = encode ⟨n, m, q⟩ := by
    rw [encode_shift hu hq, Int.sub_add_cancel]
  rw [roundTo_single, hstep]
  dsimp only
  split
  · refine ⟨m * 2 ^ u, q - u, rfl, by positivity, ?_, by omega, ?_, hencode⟩
    · exact (Nat.log2_lt (by positivity)).mp (by omega)
    · rw [hlog]
      push_cast
      omega
  · generalize hk : (max (-149) (q + m.log2 - 23) - (q - u)).toNat = k
    -- the places that are cut off are zeros
    obtain ⟨c, hc⟩ : 2 ^ k ∣ m * 2 ^ u := by
      by_cases htop : m.log2 ≤ 23
      · exact Dvd.dvd.mul_left (Nat.pow_dvd_pow 2 (by omega)) m
      · have htop : m = 2 ^ 24 := by
          have hle : 2 ^ 24 ≤ m := (Nat.le_log2 hm).mp (by omega)
          omega
        have hlogm : m.log2 = 24 := by
          rw [htop]
          exact Nat.log2_two_pow
        obtain rfl : k = u + 1 := by omega
        refine ⟨2 ^ 23, ?_⟩
        rw [htop, ← Nat.pow_add, ← Nat.pow_add]
        congr 1
        omega
    rw [Nat.mul_comm (2 ^ k)] at hc
    have hz : c ≠ 0 := by
      rintro rfl
      rw [Nat.zero_mul] at hc
      exact absurd hc (by positivity)
    have hlogc : c.log2 + k = m.log2 + u := by
      rw [← log2_mul_pow hz, ← hc, hlog]
    have hexp : max (-149) (q + m.log2 - 23) = q - u + k := by omega
    rw [hc] at hu hencode ⊢
    rw [roundDiv_mul c (by positivity), hexp]
    refine ⟨c, _, rfl, hz, ?_, by omega, by omega, ?_⟩
    · exact (Nat.log2_lt hz).mp (by omega)
    · rw [← encode_shift hu hq, hencode]

/-- A number of single precision is encoded as a double, and what this one is rounded to encodes the same. -/
theorem roundTo_encode {r : Dyadic} (hr : IsSingle r) (hm : r.m ≠ 0) (hrange : InRange single r) :
    ∃ d m q, decode? (encode r) = some d ∧ roundTo single d = ⟨r.negative, m, q⟩ ∧ m ≠ 0 ∧ m < 2 ^ 24 ∧ -149 ≤ q ∧
      q + m.log2 = r.q + r.m.log2 ∧ encode ⟨r.negative, m, q⟩ = encode r := by
  have hfactor := hr.factor
  have hlow := hr.exponent
  have hlog : r.m.log2 ≤ 24 := Nat.le_of_lt_succ ((Nat.log2_lt hm).mpr (by omega))
  have hhigh : r.q + r.m.log2 < 128 := hrange.resolve_left hm
  have hlift : lift r = min (52 - r.m.log2) (r.q + 1074).toNat := rfl
  have hbound : r.m * 2 ^ lift r < 2 ^ 53 := by
    refine (Nat.log2_lt (by positivity)).mp ?_
    rw [log2_mul_pow hm]
    omega
  obtain ⟨m, q, hround, hrest⟩ := roundTo_lifted hr hm hbound (by omega)
  exact ⟨_, m, q, decode?_encode hm (by omega) (by omega) (by omega), hround, hrest⟩

/-! ## Bits of single precision -/

/-- The number whose bits of single precision are given. -/
def ofSingleBits (bits : Nat) : Float :=
  let negative := bits / twoTo 31 == 1
  let exponent := bits / twoTo 23 % twoTo 8
  let fraction := bits % twoTo 23
  if exponent = 255 then if fraction = 0 then infinity negative else nan
  else if exponent = 0 then encode ⟨negative, fraction, -149⟩
  else encode ⟨negative, fraction + twoTo 23, (exponent : Int) - 150⟩

/-- The number with some fields of single precision. -/
theorem ofSingleBits_fields {n : Bool} {e f : Nat} (he : e < 256) (hf : f < 2 ^ 23) :
    ofSingleBits (n.toNat * 2 ^ 31 + e * 2 ^ 23 + f) =
      if e = 255 then if f = 0 then infinity n else nan
      else if e = 0 then encode ⟨n, f, -149⟩
      else encode ⟨n, f + 2 ^ 23, (e : Int) - 150⟩ := by
  have hsign := Bool.toNat_le n
  have hneg : (n.toNat * 2 ^ 31 + e * 2 ^ 23 + f) / 2 ^ 31 = n.toNat := by omega
  have hexp : (n.toNat * 2 ^ 31 + e * 2 ^ 23 + f) / 2 ^ 23 % 2 ^ 8 = e := by omega
  have hfrac : (n.toNat * 2 ^ 31 + e * 2 ^ 23 + f) % 2 ^ 23 = f := by omega
  unfold ofSingleBits
  dsimp only
  rw [twoTo_eq, twoTo_eq, twoTo_eq, hneg, hexp, hfrac, beq_one_toNat]

/-- Bits of single precision that make a number. -/
def Make (bits : Nat) (x : Float) : Prop := bits < 2 ^ 32 ∧ ofSingleBits bits = x

theorem make_fields {n : Bool} {e f : Nat} (he : e < 256) (hf : f < 2 ^ 23) :
    Make (n.toNat * 2 ^ 31 + e * 2 ^ 23 + f)
      (if e = 255 then if f = 0 then infinity n else nan
        else if e = 0 then encode ⟨n, f, -149⟩
        else encode ⟨n, f + 2 ^ 23, (e : Int) - 150⟩) := by
  have hsign := Bool.toNat_le n
  exact ⟨by omega, ofSingleBits_fields he hf⟩

theorem make_infinity (n : Bool) : Make (n.toNat * 2 ^ 31 + 255 * 2 ^ 23) (infinity n) := by
  have h := @make_fields n 255 0 (by decide) (by decide)
  rwa [Nat.add_zero, if_pos rfl, if_pos rfl] at h

theorem make_nan : Make 0x7FC00000 nan := by
  have h := @make_fields false 255 (2 ^ 22) (by decide) (by decide)
  rwa [if_pos rfl, if_neg (by decide)] at h

theorem make_zero (n : Bool) : Make (n.toNat * 2 ^ 31) (ofFields n 0 0) := by
  have h := @make_fields n 0 0 (by decide) (by decide)
  rw [if_neg (by decide), if_pos rfl, encode_zero] at h
  simpa using h

/-- The bits of a number of single precision, its leading bit brought to its place. -/
theorem make_short {n : Bool} {m : Nat} {q : Int} (hm : m ≠ 0) (hlt : m < 2 ^ 24)
    (hlow : -149 ≤ q) (hhigh : q + m.log2 < 128) :
    let lift := min (23 - m.log2) (q + 149).toNat
    Make (if m * 2 ^ lift < 2 ^ 23 then n.toNat * 2 ^ 31 + m * 2 ^ lift
      else n.toNat * 2 ^ 31 + (q - lift + 150).toNat * 2 ^ 23 + (m * 2 ^ lift - 2 ^ 23))
      (encode ⟨n, m, q⟩) := by
  intro lift
  have hlift : lift = min (23 - m.log2) (q + 149).toNat := rfl
  have hlogm : m.log2 ≤ 23 := Nat.le_of_lt_succ ((Nat.log2_lt hm).mpr hlt)
  have hlog : (m * 2 ^ lift).log2 = m.log2 + lift := log2_mul_pow hm lift
  have hz : m * 2 ^ lift ≠ 0 := by positivity
  have htop : m * 2 ^ lift < 2 ^ 24 := (Nat.log2_lt hz).mp (by omega)
  have hshift : encode ⟨n, m * 2 ^ lift, q - lift⟩ = encode ⟨n, m, q⟩ := by
    rw [encode_shift (by omega) (by omega), Int.sub_add_cancel]
  clear_value lift
  rw [← hshift]
  split
  · rename_i hsmall
    have hlow : (m * 2 ^ lift).log2 < 23 := (Nat.log2_lt hz).mpr hsmall
    have hexp : q - lift = -149 := by omega
    have h := @make_fields n 0 (m * 2 ^ lift) (by decide) hsmall
    rw [Nat.zero_mul, Nat.add_zero, if_neg (by decide), if_pos rfl] at h
    rwa [hexp]
  · rename_i hbig
    have hle : 23 ≤ (m * 2 ^ lift).log2 := by
      rw [Nat.le_log2 hz]
      omega
    have hplace : m * 2 ^ lift - 2 ^ 23 + 2 ^ 23 = m * 2 ^ lift := by omega
    have hexp : ((q - lift + 150).toNat : Int) - 150 = q - lift := by omega
    have h := @make_fields n (q - lift + 150).toNat (m * 2 ^ lift - 2 ^ 23) (by omega) (by omega)
    rwa [if_neg (by omega), if_neg (by omega), hplace, hexp] at h

/-! ## Rounding to single precision -/

theorem negative_of_decode? {x : Float} {d : Dyadic} (h : decode? x = some d) :
    d.negative = isNegative x := by
  unfold decode? at h
  dsimp only at h
  split at h
  · cases h
  · split at h <;> cases h <;> rfl

theorem toSingle_of_none {x : Float} (h : decode? x = none) : toSingle x = x := by
  rw [toSingle, h]

theorem toSingle_of_some {x : Float} {d : Dyadic} (h : decode? x = some d) : toSingle x =
    if InRange single (roundTo single d) then encode (roundTo single d)
    else infinity (isNegative x) := by
  rw [toSingle, h, ← negative_of_decode? h]

end RecordForge.Binary

namespace RecordForge.Avro

open Binary

theorem singleBits_of_none {x : Float} (h : decode? (toSingle x) = none) :
    singleBits x = if x.isNaN then 0x7FC00000 else (isNegative x).toNat * 2 ^ 31 + 255 * 2 ^ 23 := by
  unfold singleBits
  dsimp only
  rw [h, sign_eq]
  rfl

theorem singleBits_of_some {x : Float} {d r : Binary.Dyadic} (h : decode? (toSingle x) = some d)
    (hr : roundTo single d = r) :
    singleBits x =
      if r.m * 2 ^ min (23 - r.m.log2) (r.q + 149).toNat < 2 ^ 23 then
        (isNegative x).toNat * 2 ^ 31 + r.m * 2 ^ min (23 - r.m.log2) (r.q + 149).toNat
      else (isNegative x).toNat * 2 ^ 31 +
        (r.q - min (23 - r.m.log2) (r.q + 149).toNat + 150).toNat * 2 ^ 23 +
        (r.m * 2 ^ min (23 - r.m.log2) (r.q + 149).toNat - 2 ^ 23) := by
  unfold singleBits
  dsimp only
  rw [h, sign_eq, ← hr]
  rfl

/-- **The bits of single precision of a number make the nearest number of single precision.** -/
theorem make_singleBits (x : Float) : Make (singleBits x) (toSingle x) := by
  cases hx : decode? x with
  | none =>
    have hsingle := toSingle_of_none hx
    rw [singleBits_of_none (by rw [hsingle, hx]), hsingle]
    rcases eq_of_decode?_none hx with hnan | hinf
    · rw [hnan, isNaN_nan, if_pos rfl]
      exact make_nan
    · have hnone : x.isNaN = false := by
        rw [hinf]
        exact isNaN_infinity _
      have h := make_infinity (isNegative x)
      rw [← hinf] at h
      rwa [hnone, if_neg (by decide)]
  | some d =>
    have hround := isSingle_roundTo d
    have hnegative : (roundTo single d).negative = isNegative x := by
      rw [negative_roundTo, negative_of_decode? hx]
    have hsingle := toSingle_of_some hx
    generalize roundTo single d = r at hround hnegative hsingle
    by_cases hrange : InRange single r
    · rw [if_pos hrange] at hsingle
      by_cases hm : r.m = 0
      · have hzero : toSingle x = ofFields (isNegative x) 0 0 := by
          rw [hsingle, encode, if_pos hm, hnegative]
        have hdecode : decode? (toSingle x) = some ⟨isNegative x, 0, -1074⟩ := by
          rw [hzero, decode?_ofFields (by decide) (by decide), if_pos rfl]
        rw [singleBits_of_some hdecode (roundTo_zero _), hzero]
        simpa using make_zero (isNegative x)
      · obtain ⟨e, m, q, hdecode, hr, hz, hlt, hq, hsum, hencode⟩ := roundTo_encode hround hm hrange
        rw [← hsingle] at hdecode
        rw [singleBits_of_some hdecode hr, hsingle, ← hencode, ← hnegative]
        refine make_short hz hlt hq ?_
        rw [hsum]
        exact hrange.resolve_left hm
    · rw [if_neg hrange] at hsingle
      rw [singleBits_of_none (by rw [hsingle, decode?_infinity]), isNaN_of_decode? hx, hsingle]
      exact make_infinity (isNegative x)

end RecordForge.Avro
