import RecordForge.Proofs.Calls

/-!
# Products of integers

The integers of a span are multiplied by a scale. The product is first reduced to a 64-bit word and then
compared with the range of the field, so an `int` field refuses a product that it cannot hold only if its
word is out of range too.

* `wrap_mul_wrap`, `wrap_add_wrap`: reducing in between does not change the word of a result.
* `after_counter`, `after_range`: what a number of calls leave of a counter and of a range.
* `nth_counter`: what a call of a counter gives.
* `nth_ofIntegers`: every call gives the word of one product.
* `Faithful`, `faithful_fit`: when an `int` field has a product as it is or not at all.
* **`int_product_faithful_iff`**: exactly the products that come back into the range when they are reduced
  are lost.
-/

namespace RecordForge

open Dialog

/-! ## Words of sums and products -/

namespace Word

/-- Integers with one residue modulo `2 ^ 64` have one word. -/
theorem wrap_congr {a b : Int} (h : a % count = b % count) : wrap a = wrap b := by
  unfold wrap count minLong at *
  omega

theorem wrap_mul_wrap (a b : Int) : wrap (wrap a * b) = wrap (a * b) :=
  wrap_congr (by rw [Int.mul_emod, wrap_emod, ← Int.mul_emod])

theorem wrap_add_wrap (a b : Int) : wrap (wrap a + b) = wrap (a + b) :=
  wrap_congr (by rw [Int.add_emod, wrap_emod, ← Int.add_emod])

end Word

/-- What an integer leaves in a field depends on its word only. -/
theorem fit_congr {a b : Int} (kind : Kind) (h : Word.wrap a = Word.wrap b) :
    fit a kind = fit b kind := by
  simp only [fit, h]

/-! ## Calls of counters and ranges -/

section Calls

variable {σ : Type} [Source σ] {kind : Kind} {count scale : Int}

/-- A counter goes on by one in every call, also in one that fails, and draws nothing. -/
theorem after_counter : ∀ (n : Nat) {count : Int} {u : σ}, Word.IsLong count →
    (Generator.counter count scale kind).after n u = (.counter (Word.wrap (count + n)) scale kind, u)
  | 0, count, u, h => by
    rw [Int.natCast_zero, Int.add_zero, Word.wrap_of_isLong h]
    rfl
  | n + 1, count, u, _ => by
    have hnext : Word.wrap (Word.wrap (count + 1) + n) = Word.wrap (count + (n + 1 : Nat)) := by
      rw [Word.wrap_add_wrap, Int.natCast_add, Int.natCast_one, Int.add_assoc, Int.add_comm 1]
    rw [← hnext]
    exact after_counter n (Word.isLong_wrap _)

/-- The count after at least one call is a word, whatever it was at first. -/
theorem after_counter_succ (n : Nat) (u : σ) :
    (Generator.counter count scale kind).after (n + 1) u =
      (.counter (Word.wrap (count + n + 1)) scale kind, u) := by
  have hlater : (Generator.counter (Word.wrap (count + 1)) scale kind).after n u =
      (.counter (Word.wrap (Word.wrap (count + 1) + n)) scale kind, u) :=
    after_counter n (Word.isLong_wrap _)
  rw [Word.wrap_add_wrap, Int.add_right_comm] at hlater
  exact hlater

/-- **A call gives what the product of its count leaves in the field.** -/
theorem nth_counter (n : Nat) (u : σ) :
    (Generator.counter count scale kind).nth n u = (fit ((count + n) * scale) kind).map .int := by
  cases n with
  | zero =>
    rw [Int.natCast_zero, Int.add_zero]
    rfl
  | succ n =>
    rw [Generator.nth, after_counter_succ, Int.natCast_add, Int.natCast_one, ← Int.add_assoc]
    exact congrArg (Except.map Value.int) (fit_congr kind (Word.wrap_mul_wrap _ _))

/-- A range stays as it is. -/
theorem after_range {lower width : Int} (n : Nat) (u : σ) :
    ((Generator.range lower width scale kind).after n u).1 = .range lower width scale kind :=
  Generator.after_eq_self (fun _ hmoves => by cases hmoves; rfl) n u

/-- The integer of a span that is multiplied in the call after `n` others: in the mode `incr` the `n`-th
one, otherwise the one that a 64-bit draw picks. -/
def Strategy.factor (s : Strategy) (lower upper : Int) (n : Nat) (draw : Int) : Int :=
  if s.mode = .incr then lower + n
  else lower + Word.remainder (Word.magnitude draw) (Word.wrap (upper - lower))

/-- **Every call for an integer of a span gives the word of one product**, if the field can hold it. -/
theorem nth_ofIntegers {s : Strategy} {lower upper : Int} {g : Generator}
    (hspan : s.IntegerSpan lower upper) (hmode : s.mode ≠ .date)
    (hg : Generator.ofIntegers s.mode lower upper s.scale kind = .ok g) (u : σ) (n : Nat) :
    g.nth n u =
      (fit (s.factor lower upper n (Source.long (g.after n u).2).1 * s.scale) kind).map .int := by
  unfold Generator.ofIntegers at hg
  unfold Strategy.factor
  split at hg
  · rename_i hincr
    cases hg
    rw [nth_counter, if_pos hincr]
  · rename_i hdate
    exact absurd hdate hmode
  · rename_i hincr _
    cases hg
    have hwidth := wrap_width_ne_zero hspan.least hspan.proper hspan.greatest
    rw [Generator.nth, after_range n u, if_neg hincr]
    simp only [Generator.next, Generator.rangeValue_eq kind hwidth]
    rw [fit_congr kind (Word.wrap_mul_wrap _ _), Int.add_comm lower]

end Calls

/-! ## Products in an `int` field -/

/-- A result that is no wrong product: a failure to fit, or the product itself, which a 32-bit word
holds. -/
def Faithful (product : Int) (r : Except Failure Value) : Prop :=
  (∃ w, r = .error (.misfit w)) ∨ Word.IsInt product ∧ r = .ok (.int product)

/-- What an `int` field makes of a product is right unless a word that it can hold stands for a product
that it cannot hold; then that word is the result. -/
theorem faithful_fit (product : Int) :
    (Faithful product ((fit product .int).map .int) ↔
      (Word.IsInt (Word.wrap product) → Word.IsInt product)) ∧
    (¬Faithful product ((fit product .int).map .int) →
      (fit product .int).map Value.int = .ok (.int (Word.wrap product))) := by
  rw [fit_int]
  by_cases hw : Word.IsInt (Word.wrap product)
  · rw [if_pos hw]
    refine ⟨⟨fun hf _ => ?_, fun himp => ?_⟩, fun _ => rfl⟩
    · rcases hf with ⟨w, hw⟩ | ⟨hp, -⟩
      · cases hw
      · exact hp
    · have hp := himp hw
      rw [Word.wrap_of_isLong hp.isLong]
      exact Or.inr ⟨hp, rfl⟩
  · rw [if_neg hw]
    have hf : Faithful product (Except.map Value.int (.error (.misfit (Word.wrap product)))) :=
      Or.inl ⟨_, rfl⟩
    exact ⟨iff_of_true hf fun h => absurd h hw, fun h => absurd hf h⟩

/-- **Which products an `int` field gets wrong.** Take a strategy for an `int` field with a span of
integers that a dialog lets pass. Each call of its generator multiplies one integer of the span. It gives
the product or fails, as long as the product is a 64-bit word; in general it does so exactly if the word
of the product is out of the 32-bit range whenever the product is. Otherwise, and only then, it gives
that word in place of the product. -/
theorem int_product_faithful_iff {name : String} {d : Descriptor} {strategy : Strategy} {s t : Session}
    (hkind : d.kind = .int) (hitems : strategy.items = none) (hmode : strategy.mode ≠ .date)
    (h : (askStrategy name d).run s = (.ok strategy, t)) :
    ∃ g lower upper, strategy.generator d = .ok g ∧ strategy.bounds = .integers lower upper ∧
      ∀ (σ : Type) [Source σ] (u : σ) (n : Nat) (product : Int),
        product = strategy.factor lower upper n (Source.long (g.after n u).2).1 * strategy.scale →
          (Faithful product (g.nth n u) ↔ (Word.IsInt (Word.wrap product) → Word.IsInt product)) ∧
          (Word.IsLong product → Faithful product (g.nth n u)) ∧
          (¬Faithful product (g.nth n u) → g.nth n u = .ok (.int (Word.wrap product))) := by
  have hvalid : strategy.Valid d := askStrategy_ok h
  have hcontent := hvalid.content
  simp only [Strategy.Content, hkind] at hcontent
  obtain ⟨lower, upper, hspan⟩ : ∃ lower upper, strategy.IntegerSpan lower upper := by
    rcases hcontent with ⟨items, hsome, -⟩ | ⟨-, hspan⟩
    · rw [hitems] at hsome
      cases hsome
    · exact hspan
  obtain ⟨g, hg, -⟩ := generator_steady hvalid (by rw [hkind]; rfl) (by rw [hkind]; nofun)
  refine ⟨g, lower, upper, hg, hspan.bounds, fun σ _ u n product hproduct => ?_⟩
  have hbuilt : Generator.ofIntegers strategy.mode lower upper strategy.scale .int = .ok g := by
    simpa only [Strategy.generator, hkind, Strategy.integerGenerator, hitems, hspan.bounds] using hg
  rw [nth_ofIntegers hspan hmode hbuilt, ← hproduct]
  obtain ⟨hiff, hwrong⟩ := faithful_fit product
  refine ⟨hiff, fun hlong => hiff.mpr fun hw => ?_, hwrong⟩
  rwa [Word.wrap_of_isLong hlong] at hw

/-- Four times `2 ^ 62` is no 64-bit word. Its word is zero, and that is what the field has. -/
theorem int_product_faithful_iff_zero : ∃ strategy t g,
    (askStrategy "n" (.plain "n" .int)).run
        ⟨["incr from 4611686018427387904 to 4611686018427387905 scale 4"], []⟩ = (.ok strategy, t) ∧
      strategy.generator (.plain "n" .int) = .ok g ∧
      ¬Faithful (4611686018427387904 * 4) (g.nth 0 ({} : Script)) ∧
      g.nth 0 ({} : Script) = .ok (.int 0) := by
  obtain ⟨strategy, t, h, rfl⟩ : ∃ strategy t,
      (askStrategy "n" (.plain "n" .int)).run
        ⟨["incr from 4611686018427387904 to 4611686018427387905 scale 4"], []⟩ = (.ok strategy, t) ∧
      strategy = {
        mode := .incr, bounds := .integers 4611686018427387904 4611686018427387905, scale := 4 } :=
    ⟨_, _, rfl, rfl⟩
  obtain ⟨g, lower, upper, hg, hbounds, hcalls⟩ := int_product_faithful_iff rfl rfl (by decide) h
  cases hbounds
  obtain ⟨hiff, -, hwrong⟩ := hcalls Script {} 0 (4611686018427387904 * 4) (by cases hg; rfl)
  have hlost : ¬Faithful (4611686018427387904 * 4) (g.nth 0 ({} : Script)) := by
    rw [hiff]
    decide
  exact ⟨_, t, g, h, hg, hlost, hwrong hlost⟩

end RecordForge
