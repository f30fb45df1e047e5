import Mathlib.Algebra.Order.Group.Nat
import Mathlib.Data.Nat.Basic
import RecordForge.Calendar.Date

/-!
# Days and their numbers

The days from the first one of year 1 to the last one of year 9999 are numbered without a gap, so a
number of days after a day is a day again as long as it is not past `lastNumber`. How a number falls
into a year and a month is found by search; here the search is shown to find it.

* `daysBeforeYear_succ`, `daysBeforeMonth_succ`: how many days a year and a month add.
* `number_mem`: every day has a number from 1 to `lastNumber`.
* **`exists_ofNumber?`**: every such number is the number of a day.
* `plus?_eq_some`: the days after a day, as far as the calendar goes.
* `toStamp_lt_iff`: stamps are in the order of their days.
* `readStamp_eq_day_iff`: which integers are read as `YYYYMMDD`.
-/

namespace RecordForge.Calendar

/-! ## Years and months -/

/-- The number of days of a year. -/
def yearLength (year : Nat) : Nat := if isLeap year then 366 else 365

theorem isLeap_iff {year : Nat} :
    isLeap year = true ↔ year % 4 = 0 ∧ (year % 100 ≠ 0 ∨ year % 400 = 0) := by
  simp [isLeap]

/-- A year adds its days to those of the years before it. -/
theorem daysBeforeYear_succ {year : Nat} (h : 1 ≤ year) :
    daysBeforeYear (year + 1) = daysBeforeYear year + yearLength year := by
  obtain ⟨y, rfl⟩ : ∃ y, year = y + 1 := ⟨year - 1, by omega⟩
  have hbefore (z : Nat) : daysBeforeYear (z + 1) = 365 * z + z / 4 - z / 100 + z / 400 := rfl
  -- each quotient grows by one in the years that its divisor divides
  have hquotient (k : Nat) : (y + 1) / k = y / k + if (y + 1) % k = 0 then 1 else 0 := by
    rw [Nat.succ_div]
    simp only [Nat.dvd_iff_mod_eq_zero]
  have h100 : (y + 1) % 100 = 0 → (y + 1) % 4 = 0 := by omega
  have h400 : (y + 1) % 400 = 0 → (y + 1) % 100 = 0 := by omega
  have hle : y / 100 ≤ y / 4 := Nat.div_le_div_left (by decide) (by decide)
  rw [hbefore, hbefore, hquotient, hquotient, hquotient, yearLength]
  generalize y / 4 = a at *
  generalize y / 100 = b at *
  generalize y / 400 = c at *
  by_cases hleap : isLeap (y + 1) = true
  · rw [if_pos hleap]
    rw [isLeap_iff] at hleap
    grind
  · rw [if_neg hleap]
    rw [isLeap_iff] at hleap
    grind

theorem daysBeforeYear_mono {a b : Nat} (ha : 1 ≤ a) (h : a ≤ b) :
    daysBeforeYear a ≤ daysBeforeYear b := by
  induction h with
  | refl => exact Nat.le_refl _
  | @step b hab ih =>
    rw [Nat.succ_eq_add_one, daysBeforeYear_succ (Nat.le_trans ha hab)]
    exact Nat.le_trans ih (Nat.le_add_right _ _)

theorem monthLength_le (year month : Nat) : monthLength year month ≤ 31 := by
  unfold monthLength
  split
  · split <;> decide
  · split <;> decide

theorem daysBeforeMonth_succ (year : Nat) {month : Nat} (h : 1 ≤ month) :
    daysBeforeMonth year (month + 1) = daysBeforeMonth year month + monthLength year month := by
  obtain ⟨m, rfl⟩ : ∃ m, month = m + 1 := ⟨month - 1, by omega⟩
  rfl

/-- All months of a year have its days. -/
theorem daysBeforeMonth_thirteen (year : Nat) : daysBeforeMonth year 13 = yearLength year := by
  simp only [daysBeforeMonth, monthLength, yearLength]
  cases isLeap year <;> rfl

theorem daysBeforeMonth_mono {year a b : Nat} (ha : 1 ≤ a) (h : a ≤ b) :
    daysBeforeMonth year a ≤ daysBeforeMonth year b := by
  induction h with
  | refl => exact Nat.le_refl _
  | @step b hab ih =>
    rw [Nat.succ_eq_add_one, daysBeforeMonth_succ year (Nat.le_trans ha hab)]
    exact Nat.le_trans ih (Nat.le_add_right _ _)

/-! ## The number of a day -/

/-- A day lies after the years before its year and not after its year. -/
theorem number_within_year (d : Date) :
    daysBeforeYear d.year < d.number ∧ d.number ≤ daysBeforeYear (d.year + 1) := by
  obtain ⟨year, month, day, hy, -, hm, hm', hd, hd'⟩ := d
  have hmonth : daysBeforeMonth year (month + 1) ≤ daysBeforeMonth year 13 :=
    daysBeforeMonth_mono (by omega) (by omega)
  rw [daysBeforeMonth_succ year hm, daysBeforeMonth_thirteen] at hmonth
  rw [daysBeforeYear_succ hy]
  simp only [Date.number]
  omega

/-- Every day has a number that the calendar reaches. -/
theorem number_mem (d : Date) : 1 ≤ d.number ∧ d.number ≤ lastNumber := by
  obtain ⟨hlow, hhigh⟩ := number_within_year d
  have hlast : daysBeforeYear (d.year + 1) ≤ lastNumber :=
    daysBeforeYear_mono (Nat.le_add_left 1 _) (Nat.succ_le_succ d.isDay.2.1)
  omega

/-! ## The day of a number -/

/-- Four centuries have 146097 days. Their mean tells the days before a year within less than two. -/
theorem daysBeforeYear_near (y : Nat) :
    146097 * y ≤ 400 * daysBeforeYear (y + 1) + 600 ∧
      400 * daysBeforeYear (y + 1) ≤ 146097 * y + 300 := by
  have hbefore : daysBeforeYear (y + 1) = 365 * y + y / 4 - y / 100 + y / 400 := rfl
  -- the place of the year in its century, and of that in its four centuries
  obtain ⟨c, s, t, hs, ht, rfl⟩ : ∃ c s t, s < 4 ∧ t < 100 ∧ y = 400 * c + 100 * s + t :=
    ⟨y / 400, y / 100 % 4, y % 100, by omega, by omega, by omega⟩
  have h4 : (400 * c + 100 * s + t) / 4 = 100 * c + 25 * s + t / 4 := by omega
  have h100 : (400 * c + 100 * s + t) / 100 = 4 * c + s := by omega
  have h400 : (400 * c + 100 * s + t) / 400 = c := by omega
  rw [hbefore, h4, h100, h400]
  omega

/-- A number falls into the year that is found for it. -/
theorem yearOf_spec {n : Nat} (h : 1 ≤ n) :
    1 ≤ yearOf n ∧ daysBeforeYear (yearOf n) < n ∧ n ≤ daysBeforeYear (yearOf n + 1) := by
  obtain ⟨y, hy⟩ : ∃ y, (n - 1) * 400 / 146097 = y := ⟨_, rfl⟩
  have hlow := daysBeforeYear_near y
  have hnext : 146097 * (y + 2) ≤ 400 * daysBeforeYear (y + 1 + 1 + 1) + 600 :=
    (daysBeforeYear_near (y + 2)).1
  unfold yearOf
  rw [hy]
  dsimp only
  -- the guess is never late, and less than two years early
  rw [if_neg (by omega)]
  split
  · rename_i hearly
    exact ⟨by omega, hearly, by omega⟩
  · exact ⟨by omega, by omega, by omega⟩

/-- The search for a month ends in the month that the day falls into, if it starts no later. -/
theorem monthDay_spec (year : Nat) : ∀ {k n : Nat}, k ≤ 12 → 1 ≤ n →
    daysBeforeMonth year (13 - k) + n ≤ daysBeforeMonth year 13 →
      1 ≤ (monthDay year k n).1 ∧ (monthDay year k n).1 ≤ 12 ∧ 1 ≤ (monthDay year k n).2 ∧
        (monthDay year k n).2 ≤ monthLength year (monthDay year k n).1 ∧
        daysBeforeMonth year (monthDay year k n).1 + (monthDay year k n).2 =
          daysBeforeMonth year (13 - k) + n
  | 0, n, _, hn, h => by
    have : daysBeforeMonth year 13 + n ≤ daysBeforeMonth year 13 := h
    omega
  | k + 1, n, hk, hn, h => by
    have hmonth : 13 - (k + 1) = 12 - k := by omega
    have hnext : 13 - k = 12 - k + 1 := by omega
    rw [hmonth] at h ⊢
    simp only [monthDay]
    split
    · rename_i hle
      exact ⟨by omega, by omega, hn, hle, rfl⟩
    · rename_i hgt
      have hadd := daysBeforeMonth_succ year (show 1 ≤ 12 - k by omega)
      rw [← hnext] at hadd
      obtain ⟨h1, h2, h3, h4, h5⟩ := monthDay_spec year (k := k)
        (n := n - monthLength year (12 - k)) (by omega) (by omega) (by omega)
      exact ⟨h1, h2, h3, h4, by omega⟩

/-- **Every number that the calendar reaches is the number of a day.** -/
theorem exists_ofNumber? {n : Int} (h : 1 ≤ n) (h' : n ≤ lastNumber) :
    ∃ d, Date.ofNumber? n = some d ∧ (d.number : Int) = n := by
  obtain ⟨m, rfl⟩ : ∃ m : Nat, n = m := ⟨n.toNat, by omega⟩
  obtain ⟨hpos, hlow, hhigh⟩ := yearOf_spec (n := m) (by omega)
  have hyear : yearOf m ≤ 9999 := by
    by_contra hgt
    have hlast : daysBeforeYear 10000 ≤ daysBeforeYear (yearOf m) :=
      daysBeforeYear_mono (by decide) (by omega)
    have : daysBeforeYear 10000 = lastNumber := rfl
    omega
  rw [daysBeforeYear_succ hpos, ← daysBeforeMonth_thirteen] at hhigh
  have hfirst : daysBeforeMonth (yearOf m) (13 - 12) = 0 := rfl
  obtain ⟨h1, h2, h3, h4, h5⟩ := monthDay_spec (yearOf m) (k := 12)
    (n := m - daysBeforeYear (yearOf m)) (by omega) (by omega) (by omega)
  have hday : IsDay (yearOf m) (monthDay (yearOf m) 12 (m - daysBeforeYear (yearOf m))).1
      (monthDay (yearOf m) 12 (m - daysBeforeYear (yearOf m))).2 := ⟨hpos, hyear, h1, h2, h3, h4⟩
  refine ⟨⟨_, _, _, hday⟩, ?_, ?_⟩
  · rw [Date.ofNumber?, if_pos ⟨h, h'⟩]
    exact dif_pos hday
  · simp only [Date.number]
    omega

/-- The day a number of days later, as far as the calendar goes. -/
theorem plus?_eq_some {d : Date} {days : Int} (h : 1 ≤ d.number + days)
    (h' : d.number + days ≤ lastNumber) :
    ∃ e, d.plus? days = some e ∧ (e.number : Int) = d.number + days :=
  exists_ofNumber? h h'

/-! ## Stamps -/

/-- The stamp of a day has at most eight digits. -/
theorem toStamp_mem (d : Date) : 0 ≤ d.toStamp ∧ d.toStamp ≤ 99991231 := by
  obtain ⟨year, month, day, -, hy, -, hm, -, hd⟩ := d
  have hlength := monthLength_le year month
  simp only [Date.toStamp]
  omega

/-- Of two days the one with the lesser stamp is earlier. -/
theorem number_lt_of_toStamp_lt {a b : Date} (h : a.toStamp < b.toStamp) : a.number < b.number := by
  obtain ⟨-, -, hm, hm', -, hd⟩ := a.isDay
  obtain ⟨-, -, hn, hn', he, he'⟩ := b.isDay
  have hlength := monthLength_le a.year a.month
  have hlength' := monthLength_le b.year b.month
  simp only [Date.toStamp] at h
  by_cases hyear : a.year = b.year
  · by_cases hmonth : a.month = b.month
    · simp only [Date.number, hyear, hmonth] at *
      omega
    · -- the earlier month ends before the later one begins
      have hlt : a.month < b.month := by omega
      have hmono : daysBeforeMonth b.year (a.month + 1) ≤ daysBeforeMonth b.year b.month :=
        daysBeforeMonth_mono (Nat.le_add_left 1 a.month) hlt
      rw [daysBeforeMonth_succ _ hm] at hmono
      rw [hyear] at hd
      simp only [Date.number, hyear]
      omega
  · have hlt : a.year < b.year := by omega
    have hmono := daysBeforeYear_mono (Nat.le_add_left 1 a.year) hlt
    have ha := (number_within_year a).2
    have hb := (number_within_year b).1
    omega

/-- No two days have one stamp. -/
theorem toStamp_inj {a b : Date} (h : a.toStamp = b.toStamp) : a = b := by
  obtain ⟨-, -, hm, hm', hd, hd'⟩ := a.isDay
  obtain ⟨-, -, hn, hn', he, he'⟩ := b.isDay
  have hlength := monthLength_le a.year a.month
  have hlength' := monthLength_le b.year b.month
  simp only [Date.toStamp] at h
  have hyear : a.year = b.year := by omega
  have hmonth : a.month = b.month := by omega
  have hday : a.day = b.day := by omega
  cases a
  cases b
  simp only [Date.mk.injEq]
  exact ⟨hyear, hmonth, hday⟩

/-- **Stamps are in the order of their days.** -/
theorem toStamp_lt_iff {a b : Date} : a.toStamp < b.toStamp ↔ a.number < b.number := by
  refine ⟨number_lt_of_toStamp_lt, fun h => ?_⟩
  rcases Int.lt_trichotomy a.toStamp b.toStamp with hlt | heq | hgt
  · exact hlt
  · rw [toStamp_inj heq] at h
    exact absurd h (Nat.lt_irrefl _)
  · exact absurd (number_lt_of_toStamp_lt hgt) (Nat.lt_asymm h)

theorem of?_eq_some_iff {year month day : Nat} {d : Date} :
    Date.of? year month day = some d ↔ d.year = year ∧ d.month = month ∧ d.day = day := by
  unfold Date.of?
  constructor
  · intro h
    split at h
    · cases h
      exact ⟨rfl, rfl, rfl⟩
    · cases h
  · rintro ⟨rfl, rfl, rfl⟩
    rw [dif_pos d.isDay]

/-- **An integer is read as a day exactly if it is the day's stamp** with at least four digits for the
year. -/
theorem readStamp_eq_day_iff {n : Int} {d : Date} :
    readStamp n = .day d ↔ n = d.toStamp ∧ 1000 ≤ d.year := by
  obtain ⟨hy, hy', hm, hm', hd, hd'⟩ := d.isDay
  have hlength := monthLength_le d.year d.month
  unfold readStamp
  constructor
  · intro h
    split at h
    · cases h
    split at h
    · cases h
    split at h
    · rename_i e he
      cases h
      obtain ⟨h1, h2, h3⟩ := of?_eq_some_iff.mp he
      simp only [Date.toStamp]
      omega
    · cases h
  · rintro ⟨rfl, hyear⟩
    have hstamp : d.toStamp = ((d.year * 100 + d.month) * 100 + d.day : Nat) := rfl
    have he : Date.of? (d.toStamp / 10000).toNat (d.toStamp / 100 % 100).toNat
        (d.toStamp % 100).toNat = some d := of?_eq_some_iff.mpr (by omega)
    rw [if_neg (by omega), if_neg (by unfold yearReach; omega), he]

end RecordForge.Calendar
