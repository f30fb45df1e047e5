import RecordForge.Proofs.Commands
import RecordForge.Proofs.Conformity

/-!
# Calls of a generator

A generator is called again and again, also after a call that failed. The generator of a strategy that a
dialog lets pass never meets a defect in this: it draws below positive bounds only, divides by no zero,
stays within its items and within the calendar. What is left to fail is an integer that an `int` field
cannot hold.

* `Generator.Steady`: what rules the defects out, `Generator.MayOverflow`: which values may not fit.
* `Moves.steady`, `next_outcome`: one call keeps it, and gives a value unless that does not fit.
* `nth_outcome`: so does every call.
* `generator_steady`: it is true of the generator of every valid strategy.
* **`configured_generator_steady`**: the generators that are configured do not crash.
-/

namespace RecordForge

open Calendar Dialog

namespace Generator

/-! ## What rules defects out -/

/-- What keeps a generator from a defect. Its draws are below positive bounds of at most `reach`; its
divisor is not zero, its position is one of an item, and its days are within the calendar. Nothing is
said of decimal numbers. -/
def Steady (reach : Int) : Generator → Prop
  | range _ width _ _ => width ≠ 0
  | counter .. => True
  | days lower width scale buckets _ _ =>
    0 < width ∧ lower.number + width ≤ lastNumber + 1 ∧ 0 ≤ scale ∧ 0 ≤ buckets ∧ buckets ≤ reach
  | pick items => 0 < items.length ∧ items.length ≤ reach
  | rotate items index => 0 ≤ index ∧ index < items.length
  | decimal .. => False
  | text _ width => 0 < width ∧ width ≤ reach
  | nullable _ inner => inner.Steady reach

/-- Whether a generator multiplies integers for an `int` field, so that its values may not fit. -/
def MayOverflow : Generator → Prop
  | range _ _ _ kind => kind = .int
  | counter _ _ kind => kind = .int
  | nullable _ inner => inner.MayOverflow
  | _ => False

end Generator

/-! ## Values -/

theorem fit_int (n : Int) :
    fit n .int =
      if Word.IsInt (Word.wrap n) then .ok (Word.wrap n) else .error (.misfit (Word.wrap n)) := by
  simp only [fit, true_and, ite_not]

/-- An integer leaves a word, or a failure where the field is an `int` field. -/
theorem fit_outcome (n : Int) (kind : Kind) :
    (∃ w, fit n kind = .ok w) ∨ (∃ w, fit n kind = .error (.misfit w)) ∧ kind = .int := by
  simp only [fit]
  split
  · rename_i h
    exact Or.inr ⟨⟨_, rfl⟩, h.1⟩
  · exact Or.inl ⟨_, rfl⟩

/-- A 32-bit word fits any field. -/
theorem fit_of_isInt {n : Int} (kind : Kind) (h : Word.IsInt n) : fit n kind = .ok n := by
  unfold fit
  rw [Word.wrap_of_isLong h.isLong]
  exact if_neg fun hw => hw.2 h

theorem isInt_toStamp (d : Date) : Word.IsInt d.toStamp := by
  obtain ⟨hlow, hhigh⟩ := toStamp_mem d
  simp only [Word.IsInt, Word.minInt, Word.maxInt]
  omega

namespace Generator

/-- The first day of a bucket is a day of the calendar, and its stamp fits the field. -/
theorem dayOf_ok {lower : Date} {width scale : Int} (kind : Kind) (bucket : Nat) (hwidth : 0 < width)
    (hlast : lower.number + width ≤ lastNumber + 1) (hscale : 0 ≤ scale) :
    ∃ w, dayOf lower width scale kind bucket = .ok w := by
  have hdays : 0 ≤ (bucket : Int) * scale := Int.mul_nonneg (by omega) hscale
  have hnumber := number_mem lower
  have hlow : 1 ≤ lower.number + min (bucket * scale) (width - 1) := by omega
  have hhigh : lower.number + min (bucket * scale) (width - 1) ≤ lastNumber := by omega
  obtain ⟨e, he, -⟩ := plus?_eq_some hlow hhigh
  exact ⟨e.toStamp, by rw [dayOf, he]; exact fit_of_isInt kind (isInt_toStamp e)⟩

/-- A range with a width gives what its product leaves in the field. -/
theorem rangeValue_eq {n lower width scale : Int} (kind : Kind) (h : width ≠ 0) :
    rangeValue n lower width scale kind =
      (fit (Word.wrap (Word.remainder (Word.magnitude n) width + lower) * scale) kind).map .int := by
  unfold rangeValue remainder
  rw [if_neg h]
  rfl

end Generator

/-! ## Calls -/

section Steps

variable {σ : Type} [Source σ] {reach : Int} {g g' : Generator}

/-- A move keeps what rules defects out. -/
theorem Generator.Moves.steady (h : g.Moves g') (hg : g.Steady reach) : g'.Steady reach := by
  induction h with
  | stays => exact hg
  | counts => trivial
  | turns items index =>
    obtain ⟨hlow, hhigh⟩ := hg
    have hpos : (0 : Int) < items.length := by omega
    exact ⟨Int.emod_nonneg _ (by omega), Int.emod_lt_of_pos _ hpos⟩
  | within p _ ih => exact ih hg

/-- A move leads to no other kind of field. -/
theorem Generator.Moves.mayOverflow (h : g.Moves g') (hg : g'.MayOverflow) : g.MayOverflow := by
  induction h with
  | stays | counts => exact hg
  | turns => exact hg.elim
  | within p _ ih => exact ih hg

theorem map_fit_outcome (n : Int) (kind : Kind) :
    (∃ v, (fit n kind).map Value.int = .ok v) ∨
      (∃ w, (fit n kind).map Value.int = .error (.misfit w)) ∧ kind = .int := by
  rcases fit_outcome n kind with ⟨w, hw⟩ | ⟨⟨w, hw⟩, hk⟩
  · exact Or.inl ⟨.int w, by rw [hw]; rfl⟩
  · exact Or.inr ⟨⟨w, by rw [hw]; rfl⟩, hk⟩

/-- **A call gives a value, unless it multiplies integers and the product does not fit.** The source
has to reach the bounds of the draws. -/
theorem next_outcome (hreach : ∀ u : σ, Source.Reaches u reach) (hg : g.Steady reach) (s : σ) :
    (∃ v, (g.next s).1 = .ok v) ∨ (∃ w, (g.next s).1 = .error (.misfit w)) ∧ g.MayOverflow := by
  -- a draw below a bound of the generator succeeds
  have hdraw {bound : Int} (hpos : 0 < bound) (hle : bound ≤ reach) (u : σ) :
      ∃ n u', Draw.below bound u = (.ok n, u') :=
    Draw.below_of_pos hpos fun r hr => Int.le_trans hle (hreach u r hr)
  induction g generalizing s with
  | range lower width scale kind =>
    simp only [Generator.next, Generator.rangeValue_eq kind hg]
    exact map_fit_outcome _ kind
  | counter count scale kind => exact map_fit_outcome _ kind
  | days lower width scale buckets fallback kind =>
    obtain ⟨hwidth, hlast, hscale, hnonneg, hle⟩ := hg
    simp only [Generator.next]
    split
    · exact Or.inl ⟨_, rfl⟩
    · obtain ⟨bucket, s', hb⟩ := hdraw (by omega) hle s
      obtain ⟨w, hw⟩ := Generator.dayOf_ok kind bucket hwidth hlast hscale
      simp only [hb, hw]
      exact Or.inl ⟨_, rfl⟩
  | pick items =>
    obtain ⟨i, s', hi⟩ := hdraw (Int.natCast_pos.mpr hg.1) hg.2 s
    have hlt : i < items.length := by
      have hbelow : (i : Int) < items.length := Draw.below_lt (s := s) (by rw [hi])
      omega
    simp only [Generator.next, hi, List.getElem?_eq_getElem hlt]
    exact Or.inl ⟨_, rfl⟩
  | rotate items index =>
    obtain ⟨hlow, hhigh⟩ := hg
    have hlt : index.toNat < items.length := by omega
    simp only [Generator.next, itemAt?, if_pos hlow, List.getElem?_eq_getElem hlt]
    exact Or.inl ⟨_, rfl⟩
  | decimal => exact hg.elim
  | text lower width =>
    obtain ⟨n, s', hn⟩ := hdraw hg.1 hg.2 s
    simp only [Generator.next, hn]
    exact Or.inl ⟨_, rfl⟩
  | nullable p inner ih =>
    simp only [Generator.next]
    split
    · exact Or.inl ⟨_, rfl⟩
    · exact ih hg _

/-- **Every call gives a value, unless the generator multiplies integers and the product does not
fit.** -/
theorem nth_outcome (hreach : ∀ u : σ, Source.Reaches u reach) (hg : g.Steady reach) (s : σ) (n : Nat) :
    (∃ v, g.nth n s = .ok v) ∨ (∃ w, g.nth n s = .error (.misfit w)) ∧ g.MayOverflow := by
  have hsteady : (g.after n s).1.Steady reach :=
    Generator.after_keeps (P := Generator.Steady reach) (fun _ _ hm => hm.steady) n s hg
  have hover : (g.after n s).1.MayOverflow → g.MayOverflow :=
    Generator.after_keeps (P := fun g' => g'.MayOverflow → g.MayOverflow)
      (fun _ _ hm hg ho => hg (hm.mayOverflow ho)) n s id
  exact (next_outcome hreach hsteady _).imp_right (And.imp_right hover)

end Steps

/-! ## Generators of strategies -/

namespace Strategy

/-- What a strategy chooses from, if it says so or the field has symbols. -/
def choices (s : Strategy) (d : Descriptor) : List Value := s.items.getD (d.symbols.map .text)

/-- The widest bound that the generator of a strategy can come to draw below. -/
def widest (s : Strategy) (d : Descriptor) : Int := max Word.maxInt (s.choices d).length

end Strategy

section Built

variable {d : Descriptor} {s : Strategy} {reach : Int}

theorem ofItems_steady {mode : Mode} {items : List Value} (hne : items ≠ [])
    (hle : items.length ≤ reach) : (Generator.ofItems mode items).Steady reach := by
  have hpos := List.length_pos_iff.mpr hne
  unfold Generator.ofItems
  split
  · exact ⟨Int.le_refl 0, Int.natCast_pos.mpr hpos⟩
  · exact ⟨hpos, hle⟩

/-- The generator of an integer field without items is that of the span. -/
theorem generator_eq_ofIntegers {lower upper : Int} (hkind : d.kind.isInteger = true) (hitems : s.items = none)
    (hbounds : s.bounds = .integers lower upper) :
    s.generator d = Generator.ofIntegers s.mode lower upper s.scale d.kind := by
  rcases Kind.isInteger_iff.mp hkind with hk | hk <;>
    simp only [Strategy.generator, hk, Strategy.integerGenerator, hitems, hbounds]

/-- Without an order and without days, the generator of a span is a range. -/
theorem ofIntegers_range {mode : Mode} (hincr : mode ≠ .incr) (hdate : mode ≠ .date) (lower upper scale : Int)
    (kind : Kind) : Generator.ofIntegers mode lower upper scale kind =
      .ok (.range lower (Word.wrap (upper - lower)) scale kind) := by
  unfold Generator.ofIntegers
  split
  · exact absurd rfl hincr
  · exact absurd rfl hdate
  · rfl

/-- The generator of the days of a span. -/
theorem ofStamps_eq {lower upper scale : Int} {a b : Date} (kind : Kind) (ha : readStamp lower = .day a)
    (hb : readStamp upper = .day b) (hscale : 1 ≤ scale) :
    Generator.ofStamps lower upper scale kind = .ok (.days a (a.daysTo b) scale (a.daysTo b / scale)
      (if kind = .int then lower else upper) kind) := by
  have hbuckets : (a.daysTo b).fdiv scale = a.daysTo b / scale :=
    Int.fdiv_eq_ediv_of_nonneg _ (by omega)
  rw [← hbuckets]
  simp only [Generator.ofStamps, ha, hb]
  exact if_neg (by omega)

/-- The buckets of a span of days are no more than its days. -/
theorem ofStamps_steady {lower upper scale : Int} {a b : Date} (kind : Kind)
    (ha : readStamp lower = .day a) (hb : readStamp upper = .day b) (hlt : a.number < b.number)
    (hscale : 1 ≤ scale) (hreach : Word.maxInt ≤ reach) :
    ∃ g, Generator.ofStamps lower upper scale kind = .ok g ∧ g.Steady reach := by
  have hlast := number_mem b
  have hfirst := number_mem a
  have hwidth : 0 < a.daysTo b := by unfold Date.daysTo; omega
  have hle : a.daysTo b / scale ≤ a.daysTo b := Int.ediv_le_self _ (by omega)
  have hnonneg : 0 ≤ a.daysTo b / scale := Int.ediv_nonneg (by omega) (by omega)
  refine ⟨_, ofStamps_eq kind ha hb hscale, hwidth, ?_, by omega, hnonneg, ?_⟩
  · unfold Date.daysTo
    omega
  · unfold Date.daysTo lastNumber Word.maxInt at *
    omega

/-- The width of a proper span of words is not zero, also as a word. -/
theorem wrap_width_ne_zero {lower upper : Int} (hleast : Word.minLong ≤ lower) (hlt : lower < upper)
    (hgreatest : upper ≤ Word.maxLong) : Word.wrap (upper - lower) ≠ 0 := by
  unfold Word.wrap Word.minLong Word.maxLong Word.count at *
  omega

theorem integerGenerator_steady {kind : Kind}
    (hv : s.ItemsFor d ∨ s.items = none ∧ ∃ lower upper, s.IntegerSpan lower upper) :
    ∃ g, s.integerGenerator kind = .ok g ∧ g.Steady (s.widest d) := by
  unfold Strategy.integerGenerator
  rcases hv with ⟨items, hi, hne, -⟩ | ⟨hi, lower, upper, hspan⟩
  · rw [hi]
    refine ⟨_, rfl, ofItems_steady hne ?_⟩
    rw [Strategy.widest, Strategy.choices, hi]
    exact Int.le_max_right _ _
  · rw [hi, hspan.bounds]
    simp only [Generator.ofIntegers]
    split
    · exact ⟨_, rfl, trivial⟩
    · rename_i hmode
      obtain ⟨a, b, ha, hb, hlt⟩ := hspan.dates hmode
      exact ofStamps_steady kind ha hb hlt hspan.scale_pos (Int.le_max_left _ _)
    · exact ⟨_, rfl, wrap_width_ne_zero hspan.least hspan.proper hspan.greatest⟩

theorem textGenerator_steady
    (hv : s.ItemsFor d ∨ s.items = none ∧ ∃ lower upper, s.LengthSpan lower upper) :
    ∃ g, s.textGenerator = .ok g ∧ g.Steady (s.widest d) := by
  unfold Strategy.textGenerator
  rcases hv with ⟨items, hi, hne, -⟩ | ⟨hi, lower, upper, hspan⟩
  · rw [hi]
    refine ⟨_, rfl, ofItems_steady hne ?_⟩
    rw [Strategy.widest, Strategy.choices, hi]
    exact Int.le_max_right _ _
  · rw [hi, hspan.bounds]
    have hproper := hspan.proper
    have hwidth : upper - lower ≤ Word.maxInt := by
      have := hspan.nonneg
      have := hspan.greatest
      omega
    exact ⟨_, rfl, by omega, Int.le_trans hwidth (Int.le_max_left _ _)⟩

theorem enumGenerator_steady (hsymbols : d.symbols ≠ []) (hv : s.ItemsFor d ∨ s.items = none) :
    (s.enumGenerator d.symbols).Steady (s.widest d) := by
  refine ofItems_steady ?_ (Int.le_max_right _ _)
  rcases hv with ⟨items, hi, hne, -⟩ | hi
  · rw [hi]
    exact hne
  · rw [hi]
    exact fun h => hsymbols (List.map_eq_nil_iff.mp h)

/-- **A valid strategy has a generator, and nothing can make that one crash.** -/
theorem generator_steady (hv : s.Valid d) (hd : d.kind.isDecimal = false)
    (hsymbols : d.kind = .enum → d.symbols ≠ []) :
    ∃ g, s.generator d = .ok g ∧ g.Steady (s.widest d) := by
  have hc := hv.content
  unfold Strategy.generator
  unfold Strategy.Content at hc
  cases hk : d.kind with
  | int | long =>
    simp only [hk] at hc ⊢
    exact integerGenerator_steady hc
  | float | double =>
    rw [hk] at hd
    cases hd
  | string =>
    simp only [hk] at hc ⊢
    exact textGenerator_steady hc
  | enum =>
    simp only [hk] at hc ⊢
    exact ⟨_, rfl, enumGenerator_steady (hsymbols hk) hc⟩
  | _ => simp only [hk] at hc

/-- The generators of strategies that may overflow are the ranges and the counters of `int` fields. -/
theorem shape_of_mayOverflow {g : Generator} (hv : s.Valid d) (hg : s.generator d = .ok g)
    (h : g.MayOverflow) :
    (∃ lower width scale, g = .range lower width scale .int) ∨
      ∃ count scale, g = .counter count scale .int := by
  cases g with
  | range lower width scale kind =>
    obtain rfl : kind = .int := h
    exact Or.inl ⟨lower, width, scale, rfl⟩
  | counter count scale kind =>
    obtain rfl : kind = .int := h
    exact Or.inr ⟨count, scale, rfl⟩
  | nullable p inner =>
    -- nulls have odds, and a strategy has none
    have hsuits : (Generator.nullable p inner).Suits d [] := generator_suits hv hg
    exact absurd hsuits.1 List.not_mem_nil
  | _ => exact h.elim

end Built

/-! ## Configured generators -/

/-- **Configured generators do not crash.** Take any strategy that a dialog about an integer, a string or
an enum with symbols lets pass. Its generator is built, and for every source that draws below each
positive bound up to the widest one asked for, every call gives a value, unless it fails because an
integer does not fit, which only ranges and counters of `int` fields do. So no draw is asked for below a
bound that is not positive, nothing is divided by zero, no position is out of the items, and no date is
out of the calendar: each of these would be another failure. -/
theorem configured_generator_steady {name : String} {d : Descriptor} {strategy : Strategy}
    {s t : Session} (hkind : d.kind ∈ [Kind.int, .long, .string, .enum])
    (hsymbols : d.kind = .enum → d.symbols ≠ [])
    (h : (askStrategy name d).run s = (.ok strategy, t)) :
    ∃ g, strategy.generator d = .ok g ∧
      ∀ (σ : Type) [Source σ], (∀ u : σ, Source.Reaches u (strategy.widest d)) → ∀ (u : σ) (n : Nat),
        (∃ v, g.nth n u = .ok v) ∨
          (∃ w, g.nth n u = .error (.misfit w)) ∧
            ((∃ lower width scale, g = .range lower width scale .int) ∨
              ∃ count scale, g = .counter count scale .int) := by
  have hdecimal : d.kind.isDecimal = false := by
    simp only [List.mem_cons, List.not_mem_nil, or_false] at hkind
    rcases hkind with hk | hk | hk | hk <;> rw [hk] <;> rfl
  have hvalid : strategy.Valid d := askStrategy_ok h
  obtain ⟨g, hg, hsteady⟩ := generator_steady hvalid hdecimal hsymbols
  refine ⟨g, hg, fun σ _ hreach u n => ?_⟩
  exact (nth_outcome hreach hsteady u n).imp_right (And.imp_right (shape_of_mayOverflow hvalid hg))

/-- A counter that leaves the 32-bit words: its second value is the last one that fits. -/
theorem configured_generator_steady_counter : ∃ strategy t g,
    (askStrategy "n" (.plain "n" .int)).run ⟨["incr from 2147483646 to 2147483647"], []⟩ =
        (.ok strategy, t) ∧
      strategy.generator (.plain "n" .int) = .ok g ∧
      g.nth 1 ({} : Script) = .ok (.int 2147483647) ∧
      (∃ w, g.nth 2 ({} : Script) = .error (.misfit w)) ∧
      ∃ count scale, g = .counter count scale .int := by
  obtain ⟨strategy, t, h, hs⟩ : ∃ strategy t,
      (askStrategy "n" (.plain "n" .int)).run ⟨["incr from 2147483646 to 2147483647"], []⟩ =
        (.ok strategy, t) ∧
      strategy = { mode := .incr, bounds := .integers 2147483646 2147483647, scale := 1 } :=
    ⟨_, _, rfl, rfl⟩
  obtain ⟨g, hg, hcalls⟩ := configured_generator_steady (by decide) (fun hk => absurd hk (by decide)) h
  subst hs
  cases hg
  refine ⟨_, t, _, h, rfl, rfl, ?_, 2147483646, 1, rfl⟩
  rcases hcalls Script (fun _ _ hr => by cases hr) {} 2 with ⟨v, hv⟩ | ⟨hw, -⟩
  · cases hv
  · exact hw

end RecordForge
