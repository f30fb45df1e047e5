import RecordForge.Generator.Basic

/-!
# How generators move

A generator is called again and again, also after a call that failed. What a call can make of it is said
once, so whatever is to be kept by all calls has to be looked at only for the few ways in which a
generator moves.

* `Generator.Moves`, `moves_next`: what a call can make of a generator.
* `Generator.after`, `Generator.nth`: what any number of calls leave, and what the next one gives.
* **`after_keeps`**: what every move keeps is true after any number of calls.
-/

namespace RecordForge

namespace Generator

/-- What a call can make of a generator. Nothing but a count, a position and what stands under a null
ever changes. -/
inductive Moves : Generator → Generator → Prop where
  /-- The generator is as it was. -/
  | stays (g : Generator) : Moves g g
  /-- A counter goes on by one. -/
  | counts (count scale : Int) (kind : Kind) :
    Moves (counter count scale kind) (counter (Word.wrap (count + 1)) scale kind)
  /-- A rotation goes on to the next item. -/
  | turns (items : List Value) (index : Int) :
    Moves (rotate items index) (rotate items ((index + 1) % items.length))
  /-- The generator under a null moves. -/
  | within (p : Float) {inner inner' : Generator} :
    Moves inner inner' → Moves (nullable p inner) (nullable p inner')

section Calls

variable {σ : Type} [Source σ]

/-- **Every call moves its generator in one of these ways**, whether it gives a value or fails. -/
theorem moves_next (g : Generator) (s : σ) : g.Moves (g.next s).2.1 := by
  induction g generalizing s with
  | range | decimal => exact .stays _
  | counter count scale kind => exact .counts count scale kind
  | days lower width scale buckets fallback kind =>
    simp only [next]
    split
    · exact .stays _
    · split <;> exact .stays _
  | pick items =>
    simp only [next]
    split
    · split <;> exact .stays _
    · exact .stays _
  | rotate items index =>
    simp only [next]
    split
    · exact .turns items index
    · exact .stays _
  | text lower width =>
    simp only [next]
    split <;> exact .stays _
  | nullable p inner ih =>
    simp only [next]
    split
    · exact .stays _
    · exact .within p (ih _)

/-! ## Any number of calls -/

/-- The generator and the source after a number of calls, whatever these gave. -/
def after : Nat → Generator → σ → Generator × σ
  | 0, g, s => (g, s)
  | n + 1, g, s => after n (g.next s).2.1 (g.next s).2.2

/-- What the call after a number of calls gives. -/
def nth (n : Nat) (g : Generator) (s : σ) : Except Failure Value :=
  ((g.after n s).1.next (g.after n s).2).1

/-- **What every move keeps is true after any number of calls.** -/
theorem after_keeps {P : Generator → Prop} (hstep : ∀ g g' : Generator, g.Moves g' → P g → P g') :
    ∀ (n : Nat) {g : Generator} (s : σ), P g → P (g.after n s).1
  | 0, _, _, h => h
  | n + 1, g, s, h => after_keeps hstep n _ (hstep g _ (moves_next g s) h)

/-- A generator that no move changes stays as it is. -/
theorem after_eq_self {g : Generator} (hfixed : ∀ g', g.Moves g' → g' = g) (n : Nat) (s : σ) :
    (g.after n s).1 = g :=
  after_keeps (P := fun g' => g' = g) (fun _ g' hmoves heq => hfixed g' (heq ▸ hmoves)) n s rfl

end Calls

end Generator

end RecordForge
