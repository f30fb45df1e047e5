import Mathlib.Algebra.Order.Field.Power
import Mathlib.Tactic.FieldSimp
import Mathlib.Tactic.Linarith
import Mathlib.Tactic.NormNum
import Mathlib.Tactic.Positivity
import Mathlib.Tactic.Ring
import RecordForge.Number.Shortest

/-!
# Shortest names and the numbers that they name

A positive number of a format is the nearest one of its format for an interval of reals around it. The intervals of
different numbers have no real in common, since an end that two of them share belongs to the one with the even factor.
The shortest name of a number is looked for in its interval, and seventeen digits are enough to find one.

* `OnGrid`: a positive number of a format, its leading bit at its place or its step the finest one.
* `Around`: the reals that are rounded to a number; `around_unique`: none is rounded to two of them.
* `Interval.Contains`, `has_rescale_iff`: the interval of the search, and what it says of a decimal.
* `tenTo_decimalPlace_le`, `nearest?_isSome`: with seventeen digits the search ends.
* **`shortest_around`**: the shortest name of a number is rounded to it.
-/

namespace RecordForge

/-! ## Powers as quotients -/

theorem cast_twoTo (n : Nat) : ((twoTo n : ℕ) : ℚ) = 2 ^ n := Nat.cast_pow 2 n

theorem cast_tenTo (n : Nat) : ((tenTo n : ℕ) : ℚ) = 10 ^ n := Nat.cast_pow 10 n

theorem zpow_eq_div {b : ℚ} (hb : b ≠ 0) (e : Int) : b ^ e = b ^ e.toNat / b ^ (-e).toNat := by
  rw [← zpow_natCast, ← zpow_natCast, ← zpow_sub₀ hb]
  congr 1
  omega

namespace Decimal

open Binary

/-- The number that a decimal is. -/
def value (d : Scaled) : ℚ := d.digits * 10 ^ d.exponent

/-! ## Numbers of a format -/

/-- A positive number of a format, with its leading bit at its place or with the finest step. -/
structure OnGrid (l : Layout) (m : Nat) (q : Int) : Prop where
  pos : 0 < m
  lt : m < 2 ^ l.precision
  least : l.leastExponent ≤ q
  normal : 2 ^ (l.precision - 1) ≤ m ∨ q = l.leastExponent

/-- How far below a number its interval reaches, in steps. -/
def reach (l : Layout) (m : Nat) (q : Int) : ℚ :=
  if m = 2 ^ (l.precision - 1) ∧ l.leastExponent < q then 1 / 4 else 1 / 2

/-- The reals that are rounded to a number of a format: the two ends of its interval belong to it if its factor is
even. -/
def Around (l : Layout) (m : Nat) (q : Int) (x : ℚ) : Prop :=
  if m % 2 = 0 then (m - reach l m q) * 2 ^ q ≤ x ∧ x ≤ (m + 1 / 2) * 2 ^ q
  else (m - reach l m q) * 2 ^ q < x ∧ x < (m + 1 / 2) * 2 ^ q

section

variable {l : Layout} {m m' : Nat} {q q' : Int} {x : ℚ}

theorem two_zpow_pos (q : Int) : (0 : ℚ) < 2 ^ q := zpow_pos two_pos q

theorem reach_le (l : Layout) (m : Nat) (q : Int) : reach l m q ≤ 1 / 2 := by
  rw [reach]
  split <;> norm_num

theorem Around.le (h : Around l m q x) : (m - reach l m q) * 2 ^ q ≤ x ∧ x ≤ (m + 1 / 2) * 2 ^ q := by
  unfold Around at h
  split at h
  · exact h
  · exact ⟨h.1.le, h.2.le⟩

theorem Around.lt (h : Around l m q x) (hodd : m % 2 ≠ 0) :
    (m - reach l m q) * 2 ^ q < x ∧ x < (m + 1 / 2) * 2 ^ q := by
  rwa [Around, if_neg hodd] at h

/-- On a grid with one step, a greater factor has a higher interval. -/
theorem not_around_of_lt (h : Around l m q x) (h' : Around l m' q x) : ¬m < m' := by
  intro hlt
  have hstep := two_zpow_pos q
  have hreach := reach_le l m' q
  have hfactor : (m : ℚ) + 1 ≤ m' := by exact_mod_cast hlt
  have hends : ((m : ℚ) + 1 / 2) * 2 ^ q ≤ (m' - reach l m' q) * 2 ^ q :=
    mul_le_mul_of_nonneg_right (by linarith) hstep.le
  by_cases heven : m % 2 = 0
  · by_cases heven' : m' % 2 = 0
    · -- two even factors are two steps apart
      have hfactor : (m : ℚ) + 2 ≤ m' := by
        have hgap : m + 2 ≤ m' := by omega
        exact_mod_cast hgap
      have hends : ((m : ℚ) + 1 / 2) * 2 ^ q < (m' - reach l m' q) * 2 ^ q :=
        mul_lt_mul_of_pos_right (by linarith) hstep
      linarith [h.le.2, h'.le.1]
    · linarith [h.le.2, (h'.lt heven').1]
  · linarith [(h.lt heven).2, h'.le.1]

/-- A coarser grid has higher intervals. -/
theorem not_around_of_step_lt (hm : OnGrid l m q) (hm' : OnGrid l m' q') (hp : 1 ≤ l.precision) (h : Around l m q x)
    (h' : Around l m' q' x) : ¬q < q' := by
  intro hlt
  have hstep := two_zpow_pos q
  have hhalf : (2 : ℚ) ^ q * 2 ≤ 2 ^ q' := by
    rw [← zpow_add_one₀ two_ne_zero]
    exact zpow_le_zpow_right₀ one_le_two (by omega)
  have hnormal : 2 ^ (l.precision - 1) ≤ m' := hm'.normal.resolve_right (by have := hm.least; omega)
  have htop : 2 ^ l.precision = 2 ^ (l.precision - 1) * 2 := by rw [← Nat.pow_succ]; congr 1; omega
  obtain ⟨half, hhalfdef⟩ : ∃ half, half = 2 ^ (l.precision - 1) := ⟨_, rfl⟩
  have hfactor : (m : ℚ) + 1 ≤ half * 2 := by
    have hbound : m + 1 ≤ half * 2 := by have := hm.lt; omega
    exact_mod_cast hbound
  have hmlow : ((m : ℚ) + 1 / 2) * 2 ^ q ≤ (half * 2 - 1 / 2) * 2 ^ q :=
    mul_le_mul_of_nonneg_right (by linarith) hstep.le
  by_cases hfirst : m' = 2 ^ (l.precision - 1)
  · -- the number just above a power of two on the coarser grid: its interval reaches a quarter of a step down
    have hreach : reach l m' q' = 1 / 4 := if_pos ⟨hfirst, by have := hm.least; omega⟩
    have hpos : (0 : ℚ) ≤ half - 1 / 4 := by
      have hone : 1 ≤ half := hhalfdef ▸ Nat.one_le_two_pow
      have hone' : (1 : ℚ) ≤ half := by exact_mod_cast hone
      linarith
    have hlow : ((half : ℚ) - 1 / 4) * (2 ^ q * 2) ≤ (m' - reach l m' q') * 2 ^ q' := by
      rw [hreach, hfirst, ← hhalfdef]
      exact mul_le_mul_of_nonneg_left hhalf hpos
    by_cases hodd : m % 2 = 0
    · -- an even factor is not the greatest one
      have hfactor : (m : ℚ) + 2 ≤ half * 2 := by
        have hbound : m + 2 ≤ half * 2 := by have := hm.lt; omega
        exact_mod_cast hbound
      have hmlow : ((m : ℚ) + 1 / 2) * 2 ^ q < (half * 2 - 1 / 2) * 2 ^ q :=
        mul_lt_mul_of_pos_right (by linarith) hstep
      linarith [h.le.2, h'.le.1]
    · linarith [(h.lt hodd).2, h'.le.1]
  · have hreach := reach_le l m' q'
    have hfactor' : (half : ℚ) + 1 ≤ m' := by
      have hbound : half + 1 ≤ m' := by omega
      exact_mod_cast hbound
    have hhalfpos : (0 : ℚ) ≤ half := Nat.cast_nonneg half
    have hlow : (half : ℚ) * (2 ^ q * 2) ≤ (m' - reach l m' q') * 2 ^ q' := by
      calc (half : ℚ) * (2 ^ q * 2) ≤ half * 2 ^ q' := mul_le_mul_of_nonneg_left hhalf hhalfpos
        _ ≤ (m' - reach l m' q') * 2 ^ q' := mul_le_mul_of_nonneg_right (by linarith) (two_zpow_pos q').le
    linarith [h.le.2, h'.le.1]

/-- **No real is rounded to two numbers of a format.** -/
theorem around_unique (hp : 1 ≤ l.precision) (hm : OnGrid l m q) (hm' : OnGrid l m' q') (h : Around l m q x)
    (h' : Around l m' q' x) : m = m' ∧ q = q' := by
  have hup := not_around_of_step_lt hm hm' hp h h'
  have hdown := not_around_of_step_lt hm' hm hp h' h
  obtain rfl : q = q' := by omega
  have hless := not_around_of_lt h h'
  have hgreater := not_around_of_lt h' h
  exact ⟨by omega, rfl⟩

end

/-! ## Intervals of the search -/

/-- A real lies in an interval. -/
def Interval.Contains (i : Interval) (x : ℚ) : Prop :=
  if i.closed then (i.low : ℚ) / i.den ≤ x ∧ x ≤ i.high / i.den else (i.low : ℚ) / i.den < x ∧ x < i.high / i.den

section

variable {i : Interval} {l : Layout} {m : Nat} {q : Int} {x : ℚ}

/-- An end of an interval and a decimal, brought to a common denominator. -/
theorem scaled (hden : 0 < i.den) (e : Int) (n c : Nat) :
    (n : ℚ) / i.den * (i.den * 10 ^ (-e).toNat) = ((n * tenTo (-e).toNat : ℕ) : ℚ) ∧
      (c : ℚ) * 10 ^ e * (i.den * 10 ^ (-e).toNat) = ((c * (i.den * tenTo e.toNat) : ℕ) : ℚ) := by
  have hden' : (i.den : ℚ) ≠ 0 := by positivity
  constructor
  · rw [Nat.cast_mul, cast_tenTo]
    field_simp
  · rw [zpow_eq_div (by norm_num), Nat.cast_mul, Nat.cast_mul, cast_tenTo]
    field_simp

/-- A natural lies in an interval that is scaled if the decimal lies in the interval. -/
theorem has_rescale_iff (hden : 0 < i.den) (e : Int) (c : Nat) :
    (i.rescale e).has c = true ↔ i.Contains (c * 10 ^ e) := by
  have hscale : (0 : ℚ) < i.den * 10 ^ (-e).toNat := by positivity
  have hle (n : Nat) : n * tenTo (-e).toNat ≤ c * (i.den * tenTo e.toNat) ↔ (n : ℚ) / i.den ≤ c * 10 ^ e := by
    rw [← mul_le_mul_iff_of_pos_right hscale, (scaled hden e n c).1, (scaled hden e n c).2, Nat.cast_le]
  have hge (n : Nat) : c * (i.den * tenTo e.toNat) ≤ n * tenTo (-e).toNat ↔ c * 10 ^ e ≤ (n : ℚ) / i.den := by
    rw [← mul_le_mul_iff_of_pos_right hscale, (scaled hden e n c).1, (scaled hden e n c).2, Nat.cast_le]
  have hlt (n : Nat) : n * tenTo (-e).toNat < c * (i.den * tenTo e.toNat) ↔ (n : ℚ) / i.den < c * 10 ^ e := by
    rw [← not_le, hge, not_le]
  have hgt (n : Nat) : c * (i.den * tenTo e.toNat) < n * tenTo (-e).toNat ↔ c * 10 ^ e < (n : ℚ) / i.den := by
    rw [← not_le, hle, not_le]
  unfold Interval.has Interval.rescale Interval.Contains
  dsimp only
  by_cases hclosed : i.closed = true
  · simp only [if_pos hclosed, Bool.and_eq_true, decide_eq_true_eq, hle, hge]
  · simp only [if_neg hclosed, Bool.and_eq_true, decide_eq_true_eq, hlt, hgt]

/-- What the search finds lies in the interval. -/
theorem has_of_nearest? {c : Nat} (h : i.nearest? = some c) : i.has c = true := by
  have hchoice (first second : Nat)
      (h : (if i.has first then some first else if i.has second then some second else none) = some c) :
      i.has c = true := by
    split at h
    · rename_i hfirst
      exact Option.some.inj h ▸ hfirst
    · split at h
      · rename_i hsecond
        exact Option.some.inj h ▸ hsecond
      · cases h
  exact hchoice _ _ h

/-- Where an interval reaches further than half a step in both directions, a neighbour of its value lies in it. -/
theorem nearest?_isSome (hden : 0 < i.den) (hlow : i.den + 2 * i.low < 2 * i.value)
    (hhigh : i.den + 2 * i.value < 2 * i.high) : i.nearest?.isSome := by
  have hsplit := Nat.div_add_mod i.value i.den
  have hrest := Nat.mod_lt i.value hden
  have hhas {c : Nat} (hbelow : 2 * i.value ≤ 2 * (c * i.den) + i.den)
      (habove : 2 * (c * i.den) ≤ 2 * i.value + i.den) : i.has c = true := by
    unfold Interval.has
    have hin : i.low < c * i.den ∧ c * i.den < i.high := by omega
    split
    · simpa using ⟨hin.1.le, hin.2.le⟩
    · simpa using hin
  unfold Interval.nearest?
  dsimp only
  generalize i.value / i.den = down at hsplit
  generalize i.value % i.den = rest at hsplit hrest
  have hdown : i.den * down = down * i.den := Nat.mul_comm _ _
  have hnext : (down + 1) * i.den = down * i.den + i.den := Nat.succ_mul _ _
  by_cases hup : i.den < 2 * rest
  · have hfirst : i.has (down + 1) = true := hhas (by omega) (by omega)
    simp [hup, hfirst]
  · by_cases htie : 2 * rest = i.den ∧ down % 2 = 1
    · have hfirst : i.has (down + 1) = true := hhas (by omega) (by omega)
      simp [htie, hfirst]
    · have hfirst : i.has down = true := hhas (by omega) (by omega)
      have hnot : ¬(i.den < 2 * rest ∨ 2 * rest = i.den ∧ down % 2 = 1) := not_or.mpr ⟨hup, htie⟩
      simp [hnot, hfirst]

/-- Dropping zeros at the end does not change a decimal. -/
theorem value_strip : ∀ (fuel : Nat) (d : Scaled), value (d.strip fuel) = value d
  | 0, _ => rfl
  | fuel + 1, d => by
    rw [Scaled.strip]
    split
    · rename_i hzero
      have hten : d.digits = d.digits / 10 * 10 := by omega
      rw [value_strip fuel, value, value, zpow_add_one₀ (by norm_num)]
      calc ((d.digits / 10 : ℕ) : ℚ) * (10 ^ d.exponent * 10) = ((d.digits / 10 * 10 : ℕ) : ℚ) * 10 ^ d.exponent := by
            push_cast
            ring
        _ = d.digits * 10 ^ d.exponent := by rw [← hten]
    · rfl

/-- The ends and the value of the interval of a number. -/
theorem interval_ends (hm : 0 < m) :
    ((interval l m q).low : ℚ) / (interval l m q).den = (m - reach l m q) * 2 ^ q ∧
      ((interval l m q).value : ℚ) / (interval l m q).den = m * 2 ^ q ∧
      ((interval l m q).high : ℚ) / (interval l m q).den = (m + 1 / 2) * 2 ^ q := by
  have hstep : ((twoTo (q - 2).toNat : ℕ) : ℚ) / (twoTo (2 - q).toNat : ℕ) = 2 ^ q / 4 := by
    have hneg : (2 - q).toNat = (-(q - 2)).toNat := by congr 1; omega
    rw [cast_twoTo, cast_twoTo, hneg, ← zpow_eq_div two_ne_zero, zpow_sub₀ two_ne_zero]
    norm_num
  have hends (n : Nat) : ((n * twoTo (q - 2).toNat : ℕ) : ℚ) / (twoTo (2 - q).toNat : ℕ) = n / 4 * 2 ^ q := by
    rw [Nat.cast_mul, mul_div_assoc, hstep]
    ring
  refine ⟨?_, ?_, ?_⟩
  · show ((((4 * m - if m = twoTo (l.precision - 1) ∧ l.leastExponent < q then 1 else 2) * twoTo (q - 2).toNat : ℕ) :
      ℚ) / (twoTo (2 - q).toNat : ℕ)) = _
    rw [hends, reach]
    congr 1
    have htwo : twoTo (l.precision - 1) = 2 ^ (l.precision - 1) := rfl
    rw [htwo]
    split
    · rw [Nat.cast_sub (by omega)]
      push_cast
      ring
    · rw [Nat.cast_sub (by omega)]
      push_cast
      ring
  · show (((4 * m * twoTo (q - 2).toNat : ℕ) : ℚ) / (twoTo (2 - q).toNat : ℕ)) = _
    rw [hends]
    push_cast
    ring
  · show ((((4 * m + 2) * twoTo (q - 2).toNat : ℕ) : ℚ) / (twoTo (2 - q).toNat : ℕ)) = _
    rw [hends]
    push_cast
    ring

theorem den_pos (l : Layout) (m : Nat) (q : Int) : 0 < (interval l m q).den := twoTo_pos _

/-- The interval of a number has the reals that are rounded to it. -/
theorem contains_interval_iff (hm : 0 < m) : (interval l m q).Contains x ↔ Around l m q x := by
  obtain ⟨hlow, -, hhigh⟩ := interval_ends (l := l) (q := q) hm
  have hclosed : (interval l m q).closed = true ↔ m % 2 = 0 := beq_iff_eq
  unfold Interval.Contains Around
  rw [hlow, hhigh]
  simp only [hclosed]

/-! ## The search -/

theorem pow_digitCount_le {n : Nat} (hn : 0 < n) : 10 ^ (digitCount n - 1) ≤ n := by
  by_contra hlt
  rw [Nat.not_le] at hlt
  by_cases hone : digitCount n - 1 = 0
  · rw [hone] at hlt
    omega
  · have hshort : (digitsOf n).length ≤ digitCount n - 1 :=
      (Nat.length_toDigits_le_iff (by decide) (Nat.pos_of_ne_zero hone)).mpr hlt
    change digitCount n ≤ digitCount n - 1 at hshort
    omega

theorem lt_pow_digitCount (n : Nat) : n < 10 ^ digitCount n := by
  have hpos : 0 < digitCount n := List.length_pos_of_ne_nil Nat.toDigits_ne_nil
  exact (Nat.length_toDigits_le_iff (by decide) hpos).mp (Nat.le_refl _)

/-- The place of a positive rational is not too high. -/
theorem tenTo_decimalPlace_le {n d : Nat} (hn : 0 < n) (hd : 0 < d) :
    (10 : ℚ) ^ (decimalPlace n d - 1) ≤ n / d := by
  have hd' : (0 : ℚ) < d := by exact_mod_cast hd
  obtain ⟨k, hk⟩ : ∃ k : Int, k = (digitCount n : Int) - digitCount d := ⟨_, rfl⟩
  have hplace : decimalPlace n d = if n * tenTo (-k).toNat < d * tenTo k.toNat then k else k + 1 := by
    rw [decimalPlace, ← hk]
  rw [hplace, le_div_iff₀ hd']
  split
  · -- as many digits as the numerator has, less those of the denominator
    have hcount : 0 < digitCount n := List.length_pos_of_ne_nil Nat.toDigits_ne_nil
    have hnum : (10 : ℚ) ^ ((digitCount n : Int) - 1) ≤ n := by
      have hle : ((10 ^ (digitCount n - 1) : ℕ) : ℚ) ≤ n := by exact_mod_cast pow_digitCount_le hn
      rw [Nat.cast_pow, ← zpow_natCast, Nat.cast_sub hcount] at hle
      exact_mod_cast hle
    have hden : (d : ℚ) ≤ 10 ^ (digitCount d : Int) := by
      have hlt : (d : ℚ) < ((10 ^ digitCount d : ℕ) : ℚ) := by exact_mod_cast lt_pow_digitCount d
      rw [Nat.cast_pow, ← zpow_natCast] at hlt
      exact_mod_cast hlt.le
    have hpow : (0 : ℚ) < 10 ^ (k - 1) := by positivity
    calc (10 : ℚ) ^ (k - 1) * d ≤ 10 ^ (k - 1) * 10 ^ (digitCount d : Int) := mul_le_mul_of_nonneg_left hden hpow.le
      _ = 10 ^ ((digitCount n : Int) - 1) := by
        rw [← zpow_add₀ (by norm_num)]
        congr 1
        omega
      _ ≤ n := hnum
  · rename_i hge
    rw [Nat.not_lt] at hge
    have hge' : ((d * tenTo k.toNat : ℕ) : ℚ) ≤ ((n * tenTo (-k).toNat : ℕ) : ℚ) := by exact_mod_cast hge
    have hup : (0 : ℚ) < 10 ^ (-k).toNat := by positivity
    rw [Nat.cast_mul, Nat.cast_mul, cast_tenTo, cast_tenTo] at hge'
    rw [add_sub_cancel_right, zpow_eq_div (by norm_num), div_mul_eq_mul_div, div_le_iff₀ hup]
    linarith

/-- A step that is ten quadrillions of times smaller than a number is below the step of its grid, and below twice what
its interval reaches down. -/
theorem zpow_lt_of_mul_le (h : OnGrid l m q) (hp : l.precision ≤ 53) {e : Int}
    (hten : (10 : ℚ) ^ e * 10 ^ 16 ≤ m * 2 ^ q) : (10 : ℚ) ^ e < 2 ^ q ∧ (10 : ℚ) ^ e < 2 * (reach l m q * 2 ^ q) := by
  have hstep := two_zpow_pos q
  have hbound {k : Nat} (hk : m ≤ 2 ^ k) : (m : ℚ) * 2 ^ q ≤ 2 ^ k * 2 ^ q :=
    mul_le_mul_of_nonneg_right (by exact_mod_cast hk) hstep.le
  have hfine : (10 : ℚ) ^ e < 2 ^ q := by
    have hall := hbound (h.lt.le.trans (Nat.pow_le_pow_right (by decide) hp))
    norm_num at hten hall
    linarith
  refine ⟨hfine, ?_⟩
  rw [reach]
  split
  · rename_i hfirst
    have hhalf := hbound (hfirst.1.le.trans (Nat.pow_le_pow_right (by decide) (by omega : l.precision - 1 ≤ 52)))
    norm_num at hten hhalf
    linarith
  · linarith

/-- Two ends of an interval and a decimal, brought to a common denominator. -/
theorem scaled_lt_iff (hden : 0 < i.den) (e : Int) (a b : Nat) :
    i.den * tenTo e.toNat + 2 * (a * tenTo (-e).toNat) < 2 * (b * tenTo (-e).toNat) ↔
      (10 : ℚ) ^ e + 2 * ((a : ℚ) / i.den) < 2 * ((b : ℚ) / i.den) := by
  have hscale : (0 : ℚ) < i.den * 10 ^ (-e).toNat := by positivity
  have hone := (scaled hden e 0 1).2
  rw [Nat.cast_one, one_mul, one_mul] at hone
  rw [← mul_lt_mul_iff_of_pos_right hscale, add_mul, mul_assoc, mul_assoc, hone, (scaled hden e a 0).1,
    (scaled hden e b 0).1]
  norm_cast

/-- With seventeen digits a name is found. -/
theorem nearest?_seventeen (h : OnGrid l m q) (hp : l.precision ≤ 53) :
    ((interval l m q).rescale
      (decimalPlace (interval l m q).value (interval l m q).den - 17)).nearest?.isSome := by
  obtain ⟨hlow, hvalue, hhigh⟩ := interval_ends (l := l) (q := q) h.pos
  have hden := den_pos l m q
  have hvaluepos : 0 < (interval l m q).value := by
    show 0 < 4 * m * twoTo (q - 2).toNat
    have := h.pos
    have := twoTo_pos (q - 2).toNat
    positivity
  have hplace := tenTo_decimalPlace_le hvaluepos hden
  generalize interval l m q = i at *
  rw [hvalue] at hplace
  generalize he : decimalPlace i.value i.den - 17 = e
  have hten : (10 : ℚ) ^ e * 10 ^ 16 ≤ m * 2 ^ q := by
    have hsplit : (10 : ℚ) ^ (decimalPlace i.value i.den - 1) = 10 ^ e * 10 ^ 16 := by
      rw [← he, ← zpow_natCast, ← zpow_add₀ (by norm_num)]
      congr 1
      omega
    rwa [hsplit] at hplace
  obtain ⟨hfine, hreach⟩ := zpow_lt_of_mul_le h hp hten
  apply nearest?_isSome
  · exact Nat.mul_pos hden (tenTo_pos _)
  · refine (scaled_lt_iff hden e i.low i.value).mpr ?_
    rw [hlow, hvalue]
    linarith
  · refine (scaled_lt_iff hden e i.value i.high).mpr ?_
    rw [hvalue, hhigh]
    linarith

/-- **The shortest name of a number is rounded to it.** -/
theorem shortest_around (h : OnGrid l m q) (hp : l.precision ≤ 53) : Around l m q (value (shortest l m q)) := by
  have hden := den_pos l m q
  have hlast := nearest?_seventeen h hp
  rw [← contains_interval_iff h.pos]
  unfold shortest
  dsimp only
  split
  · rename_i d hd
    obtain ⟨n, -, hn⟩ := List.exists_of_findSome?_eq_some hd
    obtain ⟨c, hc, rfl⟩ := Option.map_eq_some_iff.mp hn
    rw [value_strip]
    exact (has_rescale_iff hden _ c).mp (has_of_nearest? hc)
  · rename_i hnone
    rw [List.findSome?_eq_none_iff] at hnone
    have hmissing := hnone 16 (by decide)
    rw [Option.map_eq_none_iff] at hmissing
    rw [show ((16 + 1 : ℕ) : Int) = 17 from rfl] at hmissing
    rw [hmissing] at hlast
    cases hlast

end

end Decimal

end RecordForge
