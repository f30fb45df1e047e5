import RecordForge.Proofs.Products

/-!
# The integers of a span that are drawn

A random integer of a span is the lower bound and the remainder of a 64-bit draw by the width of the span.
The width is a 64-bit word too, so from `2 ^ 63` on it is negative, and its size falls again as the span
grows. The remainder has the sign of the draw, and the least word is the one draw that has no absolute value.

* `Word.drawn`: how many integers of a span of some width are drawn; `remainder_width` is a remainder by it.
* `Word.pick`: the integer that a draw picks, before it is multiplied.
* `pick_of_ne`, `pick_least`: what it is for the least word and for every other draw.
* `exists_pick_iff`: the other draws pick the first integers of the span, and all of these.
* `picks_all_iff`, `pick_least_mem_iff`: when all integers are picked, and when the least word picks one.
* **`drawn_span_image`**: what this says of the integers of a field.
-/

namespace RecordForge

open Dialog

namespace Word

/-! ## Widths -/

/-- How many integers of a span of `n` are drawn: all of them up to half the number of words, and from there
on fewer again. -/
def drawn (n : Int) : Int := min n (count - n)

/-- The integer of a span that a 64-bit draw picks. -/
def pick (lower upper draw : Int) : Int :=
  wrap (remainder (magnitude draw) (wrap (upper - lower)) + lower)

variable {n a lower upper draw v : Int}

theorem drawn_pos (hpos : 0 < n) (hlt : n < count) : 0 < drawn n := by
  unfold drawn
  omega

theorem drawn_le (n : Int) : drawn n ≤ n := Int.min_le_left _ _

/-- The number of integers drawn is the width as a word, but for its sign. -/
theorem wrap_width (hpos : 0 < n) (hlt : n < count) : wrap n = drawn n ∨ wrap n = -drawn n := by
  by_cases hhalf : n ≤ maxLong
  · left
    simp only [wrap, drawn, count, minLong, maxLong] at *
    omega
  · right
    simp only [wrap, drawn, count, minLong, maxLong] at *
    omega

/-- The sign of the width makes no difference to a remainder by it. -/
theorem remainder_width (hpos : 0 < n) (hlt : n < count) : remainder a (wrap n) = a.tmod (drawn n) := by
  rcases wrap_width hpos hlt with hwidth | hwidth
  · rw [hwidth]
    rfl
  · rw [hwidth, remainder, Int.tmod_neg]

/-! ## What a draw picks -/

section Picks

variable (hleast : minLong ≤ lower) (hproper : lower < upper) (hgreatest : upper ≤ maxLong)
include hleast hproper hgreatest

/-- A proper span of words has at least one integer, and fewer than there are words. -/
theorem width_mem : 0 < upper - lower ∧ upper - lower < count := by
  simp only [minLong, maxLong, count] at *
  omega

omit hproper in
/-- The integers of a span are words. -/
theorem isLong_of_mem (hlow : lower ≤ v) (hhigh : v < upper) : IsLong v :=
  ⟨Int.le_trans hleast hlow, by omega⟩

/-- **A draw other than the least word** goes as far into the span as its size says. -/
theorem pick_of_ne (hdraw : draw ≠ minLong) :
    pick lower upper draw = draw.natAbs % drawn (upper - lower) + lower := by
  obtain ⟨hpos, hlt⟩ := width_mem hleast hproper hgreatest
  have hdrawn := drawn_pos hpos hlt
  have hle := drawn_le (upper - lower)
  have hlow : 0 ≤ (draw.natAbs : Int) % drawn (upper - lower) := Int.emod_nonneg _ (by omega)
  have hhigh : (draw.natAbs : Int) % drawn (upper - lower) < drawn (upper - lower) :=
    Int.emod_lt_of_pos _ hdrawn
  rw [pick, remainder_width hpos hlt, magnitude, if_neg hdraw,
    Int.tmod_eq_emod_of_nonneg (Int.natCast_nonneg _)]
  exact wrap_of_isLong (isLong_of_mem hleast hgreatest (by omega) (by omega))

/-- The least word goes back from the lower bound, and past the least word on to the greatest ones. -/
theorem pick_least : pick lower upper minLong = wrap (lower - -minLong % drawn (upper - lower)) := by
  obtain ⟨hpos, hlt⟩ := width_mem hleast hproper hgreatest
  have hneg : minLong.tmod (drawn (upper - lower)) = -(-minLong % drawn (upper - lower)) := by
    rw [← Int.tmod_eq_emod_of_nonneg (by decide), Int.neg_tmod, Int.neg_neg]
  rw [pick, remainder_width hpos hlt, magnitude, if_pos rfl, hneg, Int.add_comm, ← Int.sub_eq_add_neg]

/-- **The draws other than the least word pick the first integers of the span**, as many as are drawn, and
no others. -/
theorem exists_pick_iff :
    (∃ draw, IsLong draw ∧ draw ≠ minLong ∧ pick lower upper draw = v) ↔
      lower ≤ v ∧ v < lower + drawn (upper - lower) := by
  obtain ⟨hpos, hlt⟩ := width_mem hleast hproper hgreatest
  have hdrawn := drawn_pos hpos hlt
  constructor
  · rintro ⟨draw, -, hdraw, rfl⟩
    have hlow : 0 ≤ (draw.natAbs : Int) % drawn (upper - lower) := Int.emod_nonneg _ (by omega)
    have hhigh : (draw.natAbs : Int) % drawn (upper - lower) < drawn (upper - lower) :=
      Int.emod_lt_of_pos _ hdrawn
    rw [pick_of_ne hleast hproper hgreatest hdraw]
    omega
  · rintro ⟨hlow, hhigh⟩
    -- the integer is its own distance from the lower bound away, and that distance is a draw
    have hhalf : drawn (upper - lower) ≤ -minLong := by
      simp only [drawn, count, minLong] at *
      omega
    have hsize : ((v - lower).natAbs : Int) = v - lower := by omega
    refine ⟨v - lower, ⟨?_, ?_⟩, ?_, ?_⟩
    · simp only [minLong] at *
      omega
    · simp only [minLong, maxLong] at *
      omega
    · simp only [minLong] at *
      omega
    · rw [pick_of_ne hleast hproper hgreatest (by simp only [minLong] at *; omega), hsize,
        Int.emod_eq_of_lt (by omega) (by omega)]
      omega

/-- Such a draw picks an integer of the span. -/
theorem pick_mem (hlong : IsLong draw) (hdraw : draw ≠ minLong) :
    lower ≤ pick lower upper draw ∧ pick lower upper draw < upper := by
  have hle := drawn_le (upper - lower)
  obtain ⟨hlow, hhigh⟩ := (exists_pick_iff hleast hproper hgreatest).mp ⟨draw, hlong, hdraw, rfl⟩
  exact ⟨hlow, by omega⟩

/-- **The least word picks an integer of the span exactly if its size is a multiple of the number of integers
drawn**; then it picks the lower bound. -/
theorem pick_least_mem_iff :
    lower ≤ pick lower upper minLong ∧ pick lower upper minLong < upper ↔
      drawn (upper - lower) ∣ -minLong := by
  obtain ⟨hpos, hlt⟩ := width_mem hleast hproper hgreatest
  have hdrawn := drawn_pos hpos hlt
  have hlow : 0 ≤ -minLong % drawn (upper - lower) := Int.emod_nonneg _ (by omega)
  have hhigh : -minLong % drawn (upper - lower) < drawn (upper - lower) := Int.emod_lt_of_pos _ hdrawn
  rw [pick_least hleast hproper hgreatest, Int.dvd_iff_emod_eq_zero]
  generalize -minLong % drawn (upper - lower) = back at *
  by_cases hback : back = 0
  · refine iff_of_true ?_ hback
    rw [hback, Int.sub_zero, wrap_of_isLong ⟨hleast, by omega⟩]
    exact ⟨Int.le_refl _, hproper⟩
  · -- it ends before the span, or so far back that it comes out after the span
    refine iff_of_false ?_ hback
    simp only [wrap, drawn, count, minLong, maxLong] at *
    omega

/-- No draw picks an integer beyond the ones that the other draws pick. -/
theorem lt_of_pick (hlong : IsLong draw) (hpick : pick lower upper draw = v) (hv : v < upper)
    (hlow : lower ≤ v) : v < lower + drawn (upper - lower) := by
  obtain ⟨hpos, hlt⟩ := width_mem hleast hproper hgreatest
  have hdrawn := drawn_pos hpos hlt
  by_cases hdraw : draw = minLong
  · subst hdraw
    subst hpick
    have hdvd := (pick_least_mem_iff hleast hproper hgreatest).mp ⟨hlow, hv⟩
    rw [pick_least hleast hproper hgreatest, Int.emod_eq_zero_of_dvd hdvd, Int.sub_zero,
      wrap_of_isLong ⟨hleast, by omega⟩]
    omega
  · exact ((exists_pick_iff hleast hproper hgreatest).mp ⟨draw, hlong, hdraw, hpick⟩).2

/-- **Every integer of the span is picked exactly if the span has at most half as many integers as there are
words**, whether the least word counts as a draw or not. -/
theorem picks_all_iff (allowed : Int → Prop) (hallowed : ∀ draw, draw ≠ minLong → allowed draw) :
    (∀ v, lower ≤ v → v < upper → ∃ draw, IsLong draw ∧ allowed draw ∧ pick lower upper draw = v) ↔
      upper - lower ≤ -minLong := by
  constructor
  · intro hall
    obtain ⟨draw, hlong, -, hpick⟩ := hall (upper - 1) (by omega) (by omega)
    have hlast := lt_of_pick hleast hproper hgreatest hlong hpick (by omega) (by omega)
    simp only [drawn, count, minLong] at *
    omega
  · intro hhalf v hlow hhigh
    have hdrawn : drawn (upper - lower) = upper - lower := by
      simp only [drawn, count, minLong] at *
      omega
    obtain ⟨draw, hlong, hdraw, hpick⟩ :=
      (exists_pick_iff hleast hproper hgreatest).mpr ⟨hlow, by rw [hdrawn]; omega⟩
    exact ⟨draw, hlong, hallowed draw hdraw, hpick⟩

end Picks

end Word

/-! ## The integers of a field -/

/-- Every call of a range gives what the product of the integer picked leaves in the field. -/
theorem nth_range {σ : Type} [Source σ] {lower upper scale : Int} (kind : Kind)
    (hleast : Word.minLong ≤ lower) (hproper : lower < upper) (hgreatest : upper ≤ Word.maxLong)
    (u : σ) (k : Nat) :
    (Generator.range lower (Word.wrap (upper - lower)) scale kind).nth k u =
      (fit (Word.pick lower upper (Source.long
        ((Generator.range lower (Word.wrap (upper - lower)) scale kind).after k u).2).1 * scale) kind).map
          .int := by
  have hwidth := wrap_width_ne_zero hleast hproper hgreatest
  rw [Generator.nth, after_range k u]
  simp only [Generator.next, Generator.rangeValue_eq kind hwidth]
  rfl

/-- **The integers that a random integer field takes before they are multiplied.** Take a strategy for an
integer field that a dialog lets pass, with a span of `n` integers and the mode `rand`. What a call gives
follows from the integer that its draw picks. The 64-bit draws other than `-2 ^ 63` pick the first integers of
the span, as many as the lesser of `n` and `2 ^ 64 - n`, each of them and nothing else; so what they pick lies
in the span, and it is all of the span exactly if `n` is at most `2 ^ 63`. The draw `-2 ^ 63` picks an integer
of the span exactly if that number of integers divides `2 ^ 63`. -/
theorem drawn_span_image {name : String} {d : Descriptor} {strategy : Strategy} {s t : Session}
    (hkind : d.kind.isInteger = true) (hitems : strategy.items = none) (hmode : strategy.mode = .rand)
    (h : (askStrategy name d).run s = (.ok strategy, t)) :
    ∃ lower upper g, strategy.bounds = .integers lower upper ∧ strategy.generator d = .ok g ∧
      (1 ≤ upper - lower ∧ upper - lower ≤ Word.count - 1) ∧
      (∀ (σ : Type) [Source σ] (u : σ) (k : Nat), g.nth k u =
        (fit (Word.pick lower upper (Source.long (g.after k u).2).1 * strategy.scale) d.kind).map .int) ∧
      (∀ v, (∃ draw, Word.IsLong draw ∧ draw ≠ Word.minLong ∧ Word.pick lower upper draw = v) ↔
        lower ≤ v ∧ v < lower + min (upper - lower) (Word.count - (upper - lower))) ∧
      (∀ draw, Word.IsLong draw → draw ≠ Word.minLong →
        lower ≤ Word.pick lower upper draw ∧ Word.pick lower upper draw < upper) ∧
      ((∀ v, lower ≤ v → v < upper →
        ∃ draw, Word.IsLong draw ∧ draw ≠ Word.minLong ∧ Word.pick lower upper draw = v) ↔
          upper - lower ≤ -Word.minLong) ∧
      ((∀ v, lower ≤ v → v < upper → ∃ draw, Word.IsLong draw ∧ Word.pick lower upper draw = v) ↔
        upper - lower ≤ -Word.minLong) ∧
      (lower ≤ Word.pick lower upper Word.minLong ∧ Word.pick lower upper Word.minLong < upper ↔
        min (upper - lower) (Word.count - (upper - lower)) ∣ -Word.minLong) := by
  have hvalid : strategy.Valid d := askStrategy_ok h
  obtain ⟨lower, upper, hspan⟩ := hvalid.integerSpan hkind hitems
  have hleast := hspan.least
  have hproper := hspan.proper
  have hgreatest := hspan.greatest
  obtain ⟨hpos, hlt⟩ := Word.width_mem hleast hproper hgreatest
  have hbuilt : strategy.generator d =
      .ok (.range lower (Word.wrap (upper - lower)) strategy.scale d.kind) := by
    unfold Strategy.generator
    cases hk : d.kind with
    | int | long => simp only [Strategy.integerGenerator, hitems, hspan.bounds, Generator.ofIntegers, hmode]
    | _ =>
      rw [hk] at hkind
      cases hkind
  refine ⟨lower, upper, _, hspan.bounds, hbuilt, ⟨hpos, by omega⟩, ?_, ?_, ?_, ?_, ?_, ?_⟩
  · intro σ _ u k
    exact nth_range d.kind hleast hproper hgreatest u k
  · intro v
    exact Word.exists_pick_iff hleast hproper hgreatest
  · intro draw hlong hdraw
    exact Word.pick_mem hleast hproper hgreatest hlong hdraw
  · exact Word.picks_all_iff hleast hproper hgreatest (· ≠ Word.minLong) fun _ => id
  · simpa only [true_and] using
      Word.picks_all_iff hleast hproper hgreatest (fun _ => True) fun _ _ => trivial
  · exact Word.pick_least_mem_iff hleast hproper hgreatest

/-- All words but the greatest one are a span of which only the least word is ever drawn. -/
theorem drawn_span_image_widest : ∃ strategy t,
    (askStrategy "n" (.plain "n" .long)).run
        ⟨["rand from -9223372036854775808 to 9223372036854775807 scale 3"], []⟩ = (.ok strategy, t) ∧
      strategy.bounds = .integers Word.minLong Word.maxLong ∧
      (∀ v, (∃ draw, Word.IsLong draw ∧ draw ≠ Word.minLong ∧
        Word.pick Word.minLong Word.maxLong draw = v) ↔ v = Word.minLong) ∧
      Word.pick Word.minLong Word.maxLong Word.minLong < Word.maxLong := by
  obtain ⟨strategy, t, h, hs⟩ : ∃ strategy t,
      (askStrategy "n" (.plain "n" .long)).run
        ⟨["rand from -9223372036854775808 to 9223372036854775807 scale 3"], []⟩ = (.ok strategy, t) ∧
      strategy = { mode := .rand, bounds := .integers Word.minLong Word.maxLong, scale := 3 } :=
    ⟨_, _, rfl, rfl⟩
  subst hs
  obtain ⟨lower, upper, g, hbounds, -, -, -, himage, -, -, -, hleast⟩ := drawn_span_image rfl rfl rfl h
  cases hbounds
  refine ⟨_, t, h, rfl, fun v => (himage v).trans ?_, (hleast.mpr (by decide)).2⟩
  simp only [Word.minLong, Word.maxLong, Word.count]
  omega

end RecordForge
