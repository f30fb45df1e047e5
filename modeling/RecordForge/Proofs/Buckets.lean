import RecordForge.Proofs.Calls
import RecordForge.Proofs.Recordings

/-!
# Random days

Random days of a span are drawn from its buckets: as many days as the scale says, one bucket after the other,
as long as they end in the span. A draw gives the first day of a bucket. What is left of the span after the last
whole bucket is never drawn from, and a span that is shorter than one bucket has no draw at all.

* `bucketCount`, `bucketDay`: how many buckets a span has, and the day that a bucket begins with.
* `plus?_bucketDay`: that day is so many days after the first one of the span.
* `bucketDay_lt`, `bucketDay_mem`: these days are in order, and in the span.
* `spanDays`: the generator of a span of days.
* `next_spanDays`, `next_spanDays_of_zero`: a call of it, with buckets and without.
* **`random_days_of_buckets`**: the days of a field that asks for random days.
-/

namespace RecordForge

open Calendar Dialog

/-! ## The first days of buckets -/

/-- The number of whole buckets of `scale` days from one day to another. -/
def bucketCount (a b : Date) (scale : Int) : Int := a.daysTo b / scale

/-- The day that the bucket of a number begins with, in a span from a day on. -/
def bucketDay (a : Date) (scale : Int) (i : Nat) : Date := (a.plus? (i * scale)).getD a

section Days

variable {a b : Date} {scale : Int} {i j : Nat}

/-- A bucket ends in the span. -/
theorem bucket_le (hscale : 1 ≤ scale) (hi : (i : Int) < bucketCount a b scale) :
    i * scale + scale ≤ a.daysTo b := by
  have hnext : ((i : Int) + 1) * scale ≤ a.daysTo b := Int.mul_le_of_le_ediv (by omega) hi
  rwa [Int.add_mul, Int.one_mul] at hnext

/-- **A bucket begins so many days after the span does**, and that is a day of the calendar. -/
theorem plus?_bucketDay (hscale : 1 ≤ scale) (hi : (i : Int) < bucketCount a b scale) :
    a.plus? (i * scale) = some (bucketDay a scale i) ∧
      ((bucketDay a scale i).number : Int) = a.number + i * scale := by
  have hend := bucket_le hscale hi
  have hdays : 0 ≤ (i : Int) * scale := Int.mul_nonneg (by omega) (by omega)
  have hfirst := number_mem a
  have hlast := number_mem b
  unfold Date.daysTo at hend
  obtain ⟨e, he, hnumber⟩ := @plus?_eq_some a (i * scale) (by omega) (by omega)
  have hday : bucketDay a scale i = e := by rw [bucketDay, he]; rfl
  rw [hday]
  exact ⟨he, hnumber⟩

/-- The limit of the days of a span cuts no bucket off. -/
theorem bucket_unlimited (hscale : 1 ≤ scale) (hi : (i : Int) < bucketCount a b scale) :
    min (i * scale) (a.daysTo b - 1) = i * scale := by
  have hend := bucket_le hscale hi
  exact Int.min_eq_left (by omega)

/-- Later buckets begin with later days. -/
theorem bucketDay_lt (hscale : 1 ≤ scale) (hij : i < j) (hj : (j : Int) < bucketCount a b scale) :
    (bucketDay a scale i).toStamp < (bucketDay a scale j).toStamp := by
  have hi : (i : Int) < bucketCount a b scale := by omega
  have hdays : (i : Int) * scale < j * scale := Int.mul_lt_mul_of_pos_right (by omega) (by omega)
  have hearlier := (plus?_bucketDay hscale hi).2
  have hlater := (plus?_bucketDay hscale hj).2
  rw [toStamp_lt_iff]
  omega

/-- A bucket begins with a day of the span. -/
theorem bucketDay_mem (hscale : 1 ≤ scale) (hi : (i : Int) < bucketCount a b scale) :
    a.toStamp ≤ (bucketDay a scale i).toStamp ∧ (bucketDay a scale i).toStamp < b.toStamp := by
  have hend := bucket_le hscale hi
  have hdays : 0 ≤ (i : Int) * scale := Int.mul_nonneg (by omega) (by omega)
  have hnumber := (plus?_bucketDay hscale hi).2
  unfold Date.daysTo at hend
  rw [← Int.not_lt, toStamp_lt_iff, toStamp_lt_iff]
  omega

end Days

/-! ## Calls -/

/-- The generator of the random days from one day to another, for a field of some kind. -/
def spanDays (a b : Date) (scale : Int) (kind : Kind) : Generator :=
  .days a (a.daysTo b) scale (bucketCount a b scale) (if kind = .int then a.toStamp else b.toStamp) kind

section Calls

variable {σ : Type} [Source σ] {a b : Date} {scale : Int} {kind : Kind}

/-- The number of a bucket stands for the stamp of its first day. -/
theorem dayOf_bucket {i : Nat} (hscale : 1 ≤ scale) (hi : (i : Int) < bucketCount a b scale) :
    Generator.dayOf a (a.daysTo b) scale kind i = .ok (bucketDay a scale i).toStamp := by
  rw [Generator.dayOf, bucket_unlimited hscale hi, (plus?_bucketDay hscale hi).1]
  exact fit_of_isInt kind (isInt_toStamp _)

/-- A call draws the number of a bucket, and gives its first day. -/
theorem next_spanDays {i : Nat} {s t : σ} (hscale : 1 ≤ scale)
    (hdraw : Draw.below (bucketCount a b scale) s = (.ok i, t)) :
    (spanDays a b scale kind).next s =
      (.ok (.int (bucketDay a scale i).toStamp), spanDays a b scale kind, t) := by
  have hi : (i : Int) < bucketCount a b scale := Draw.below_lt (s := s) (by rw [hdraw])
  rw [spanDays, Generator.next, if_neg (by omega), hdraw]
  simp only [dayOf_bucket hscale hi]
  rfl

/-- Without buckets nothing is drawn, and an `int` field gets the first day of the span, any other one the
last. -/
theorem next_spanDays_of_zero (hzero : bucketCount a b scale = 0) (s : σ) :
    (spanDays a b scale kind).next s =
      (.ok (.int (if kind = .int then a.toStamp else b.toStamp)), spanDays a b scale kind, s) := by
  rw [spanDays, Generator.next, if_pos hzero]

/-- Without buckets calls leave everything as it is. -/
theorem after_spanDays_of_zero (hzero : bucketCount a b scale = 0) : ∀ (k : Nat) (u : σ),
    (spanDays a b scale kind).after k u = (spanDays a b scale kind, u)
  | 0, u => rfl
  | k + 1, u => by
    rw [Generator.after, next_spanDays_of_zero hzero]
    exact after_spanDays_of_zero hzero k u

/-- The generator of a span of days stays as it is. -/
theorem after_spanDays (k : Nat) (u : σ) :
    ((spanDays a b scale kind).after k u).1 = spanDays a b scale kind :=
  Generator.after_eq_self (fun _ hmoves => by cases hmoves; rfl) k u

/-- The values of the calls are the first days of the buckets. -/
theorem nth_spanDays_iff (hscale : 1 ≤ scale) (hpos : 0 < bucketCount a b scale) (v : Value) :
    (∃ (τ : Type) (_ : Source τ) (u : τ) (k : Nat), (spanDays a b scale kind).nth k u = .ok v) ↔
      ∃ i : Nat, (i : Int) < bucketCount a b scale ∧ v = .int (bucketDay a scale i).toStamp := by
  constructor
  · rintro ⟨τ, hsource, u, k, hv⟩
    rw [Generator.nth, after_spanDays] at hv
    rcases hdraw : Draw.below (bucketCount a b scale) ((spanDays a b scale kind).after k u).2 with ⟨e | i, t⟩
    · rw [spanDays, Generator.next, if_neg (by omega)] at hv
      simp only [spanDays] at hdraw
      simp only [hdraw] at hv
      cases hv
    · rw [next_spanDays hscale hdraw] at hv
      cases hv
      exact ⟨i, Draw.below_lt (by rw [hdraw]), rfl⟩
  · rintro ⟨i, hi, rfl⟩
    -- a source that has only the number of the bucket written down
    have hdraw : Draw.below (bucketCount a b scale) (Replay.mk [.below i] none) =
        (.ok i, Replay.mk [] none) := by
      rw [Draw.below, dif_pos hpos, if_pos (Replay.reaches _ _), Replay.source_below _ (by omega)]
    refine ⟨Replay, inferInstance, Replay.mk [.below i] none, 0, ?_⟩
    rw [Generator.nth, Generator.after, next_spanDays hscale hdraw]

end Calls

/-! ## Random days of a field -/

/-- The calls of a generator give the first days of the buckets of a span. -/
structure DrawsBuckets (g : Generator) (a b : Date) (scale : Int) : Prop where
  /-- A bucket begins with a day of the calendar, so many days after the span does. -/
  days : ∀ i : Nat, (i : Int) < bucketCount a b scale →
    a.plus? (i * scale) = some (bucketDay a scale i) ∧
      ((bucketDay a scale i).number : Int) = a.number + i * scale
  /-- The limit of the days of the span makes no difference. -/
  unlimited : ∀ i : Nat, (i : Int) < bucketCount a b scale →
    min (i * scale) (a.daysTo b - 1) = i * scale
  /-- The day lies in the span. -/
  within : ∀ i : Nat, (i : Int) < bucketCount a b scale →
    a.toStamp ≤ (bucketDay a scale i).toStamp ∧ (bucketDay a scale i).toStamp < b.toStamp
  /-- A greater number means a greater stamp. -/
  increasing : ∀ i j : Nat, i < j → (j : Int) < bucketCount a b scale →
    (bucketDay a scale i).toStamp < (bucketDay a scale j).toStamp
  /-- Every call draws the number of a bucket, and gives the stamp of the day that the bucket begins with. -/
  calls : ∀ (σ : Type) [Source σ] (u : σ) (k : Nat),
    Source.Reaches (g.after k u).2 (bucketCount a b scale) →
      ∃ i : Nat, (i : Int) < bucketCount a b scale ∧
        (Draw.below (bucketCount a b scale) (g.after k u).2).1 = .ok i ∧
        g.nth k u = .ok (.int (bucketDay a scale i).toStamp)
  /-- All calls with all sources together give these stamps and nothing else. -/
  values : ∀ v : Value,
    (∃ (σ : Type) (_ : Source σ) (u : σ) (k : Nat), g.nth k u = .ok v) ↔
      ∃ i : Nat, (i : Int) < bucketCount a b scale ∧ v = .int (bucketDay a scale i).toStamp

theorem drawsBuckets_spanDays {a b : Date} {scale : Int} (kind : Kind) (hscale : 1 ≤ scale)
    (hpos : 0 < bucketCount a b scale) : DrawsBuckets (spanDays a b scale kind) a b scale where
  days _ hi := plus?_bucketDay hscale hi
  unlimited _ hi := bucket_unlimited hscale hi
  within _ hi := bucketDay_mem hscale hi
  increasing _ _ hij hj := bucketDay_lt hscale hij hj
  calls σ _ u k hreach := by
    obtain ⟨i, t, hdraw⟩ := Draw.below_of_pos hpos hreach
    refine ⟨i, Draw.below_lt (by rw [hdraw]), by rw [hdraw], ?_⟩
    rw [Generator.nth, after_spanDays, next_spanDays hscale hdraw]
  values v := nth_spanDays_iff hscale hpos v

/-- The generator of a strategy for random days is that of the span between two days. -/
theorem generator_of_dates {d : Descriptor} {strategy : Strategy} (hvalid : strategy.Valid d)
    (hmode : strategy.mode = .date) (hitems : strategy.items = none) :
    (d.kind = .int ∨ d.kind = .long) ∧ 1 ≤ strategy.scale ∧ ∃ a b : Date,
      strategy.bounds = .integers a.toStamp b.toStamp ∧ a.number < b.number ∧
        strategy.generator d = .ok (spanDays a b strategy.scale d.kind) := by
  have hinteger := hvalid.isInteger_of_date hmode
  obtain ⟨lower, upper, hspan⟩ := hvalid.integerSpan hinteger hitems
  obtain ⟨a, b, ha, hb, hlt⟩ := hspan.dates hmode
  obtain rfl := (readStamp_eq_day_iff.mp ha).1
  obtain rfl := (readStamp_eq_day_iff.mp hb).1
  refine ⟨Kind.isInteger_iff.mp hinteger, hspan.scale_pos, a, b, hspan.bounds, hlt, ?_⟩
  rw [generator_eq_ofIntegers hinteger hitems hspan.bounds, hmode, Generator.ofIntegers,
    ofStamps_eq d.kind ha hb hspan.scale_pos]
  rfl

/-- **The random days of a field.** Take a strategy for random days without items that a dialog lets pass. Its
bounds are the stamps of two days, the first one earlier, and its generator gives days of the span between them.
If the span has a whole bucket of as many days as the scale says, every call draws the number of a bucket and
gives the stamp of the day that the bucket begins with; these days are valid, in order, as many days apart as the
scale says, at or after the lower bound and before the upper one, and they are all that is given. If the span has
no such bucket, nothing is drawn, no call fails, and each gives the lower bound in an `int` field and the upper
one in a `long` field. -/
theorem random_days_of_buckets {name : String} {d : Descriptor} {strategy : Strategy} {s t : Session}
    (hmode : strategy.mode = .date) (hitems : strategy.items = none)
    (h : (askStrategy name d).run s = (.ok strategy, t)) :
    ∃ (a b : Date) (g : Generator), strategy.bounds = .integers a.toStamp b.toStamp ∧
      a.toStamp < b.toStamp ∧ strategy.generator d = .ok g ∧
      (0 < bucketCount a b strategy.scale → DrawsBuckets g a b strategy.scale) ∧
      (bucketCount a b strategy.scale = 0 → ∀ (σ : Type) [Source σ] (u : σ) (k : Nat),
        g.after k u = (g, u) ∧
          (d.kind = .int ∧ g.nth k u = .ok (.int a.toStamp) ∨
            d.kind = .long ∧ g.nth k u = .ok (.int b.toStamp))) := by
  have hvalid : strategy.Valid d := askStrategy_ok h
  obtain ⟨hkind, hscale, a, b, hbounds, hlt, hbuilt⟩ := generator_of_dates hvalid hmode hitems
  refine ⟨a, b, _, hbounds, toStamp_lt_iff.mpr hlt, hbuilt, fun hpos => ?_, fun hzero σ _ u k => ?_⟩
  · exact drawsBuckets_spanDays d.kind hscale hpos
  · have hafter := @after_spanDays_of_zero σ _ a b strategy.scale d.kind hzero k u
    refine ⟨hafter, ?_⟩
    rw [Generator.nth, hafter, next_spanDays_of_zero hzero]
    rcases hkind with hk | hk
    · exact .inl ⟨hk, by rw [hk]; rfl⟩
    · exact .inr ⟨hk, by rw [hk]; rfl⟩

/-- Five days with a leap day in between: two buckets of two days, and a day that is left. -/
theorem random_days_of_buckets_leap : ∃ strategy t g,
    (askStrategy "day" (.plain "day" .int)).run ⟨["date from 20240228 to 20240304 scale 2"], []⟩ =
        (.ok strategy, t) ∧
      strategy.generator (.plain "day" .int) = .ok g ∧
      ∀ v, (∃ (σ : Type) (_ : Source σ) (u : σ) (k : Nat), g.nth k u = .ok v) ↔
        v = .int 20240228 ∨ v = .int 20240301 := by
  obtain ⟨strategy, t, h, hs⟩ : ∃ strategy t,
      (askStrategy "day" (.plain "day" .int)).run ⟨["date from 20240228 to 20240304 scale 2"], []⟩ =
        (.ok strategy, t) ∧
      strategy = { mode := .date, bounds := .integers 20240228 20240304, scale := 2 } :=
    ⟨_, _, rfl, rfl⟩
  subst hs
  obtain ⟨a, b, g, hbounds, -, hg, hdraws, -⟩ := random_days_of_buckets rfl rfl h
  obtain ⟨ha, hb⟩ := Bounds.integers.inj hbounds
  have hfirst : (⟨2024, 2, 28, by decide⟩ : Date).toStamp = 20240228 := rfl
  have hlast : (⟨2024, 3, 4, by decide⟩ : Date).toStamp = 20240304 := rfl
  obtain rfl := toStamp_inj (hfirst.trans ha)
  obtain rfl := toStamp_inj (hlast.trans hb)
  have hvalues := (hdraws (by decide)).values
  refine ⟨_, t, g, h, hg, fun v => (hvalues v).trans ⟨?_, ?_⟩⟩
  · rintro ⟨i, hi, rfl⟩
    have hi : (i : Int) < 2 := hi
    obtain rfl | rfl : i = 0 ∨ i = 1 := by omega
    · exact .inl rfl
    · exact .inr rfl
  · rintro (rfl | rfl)
    · exact ⟨0, by decide, rfl⟩
    · exact ⟨1, by decide, rfl⟩

end RecordForge
