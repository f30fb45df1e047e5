import RecordForge.Failure

/-!
# Sources of draws

A source is a state from which four kinds of numbers are drawn, each draw giving the next state. What
is generated depends on a source only through this interface.

* `Source`: the interface. A draw below a bound is below it by its type.
* `Draw.below`: a draw below any integer, which fails when the bound is not one to draw below.
-/

namespace RecordForge

/-- A state from which numbers are drawn. -/
class Source (σ : Type) where
  /-- A signed 64-bit integer. -/
  long : σ → Int × σ
  /-- A natural below a bound. -/
  below : (bound : Nat) → 0 < bound → σ → Fin bound × σ
  /-- A fraction from zero up to but not including one. -/
  fraction : σ → Float × σ
  /-- A number of the standard normal distribution. -/
  normal : σ → Float × σ
  /-- The greatest bound that a draw can be below, if there is one. -/
  reach : σ → Option Nat

/-- Whether a source can draw below a bound. -/
def Source.Reaches {σ : Type} [Source σ] (s : σ) (bound : Int) : Prop :=
  ∀ r ∈ Source.reach s, bound ≤ (r : Nat)

instance {σ : Type} [Source σ] (s : σ) (bound : Int) : Decidable (Source.Reaches s bound) :=
  inferInstanceAs (Decidable (∀ r ∈ Source.reach s, _))

namespace Draw

variable {σ : Type} [Source σ]

/-- A natural below an integer. The bound has to be positive and within the reach of the source. -/
def below (bound : Int) (s : σ) : Except Defect Nat × σ :=
  if h : 0 < bound then
    if Source.Reaches s bound then
      let (n, s) := Source.below bound.toNat (Word.toNat_pos h) s
      (.ok n.val, s)
    else (.error (.greatDraw bound), s)
  else (.error (.emptyDraw bound), s)

/-- What is drawn below a bound is below it. -/
theorem below_lt {bound : Int} {s : σ} {n : Nat} (h : (below bound s).1 = .ok n) :
    (n : Int) < bound := by
  simp only [below] at h
  split at h
  · split at h
    · rename_i hb _
      simp only [Except.ok.injEq] at h
      have := (Source.below bound.toNat (Word.toNat_pos hb) s).1.isLt
      omega
    · simp at h
  · simp at h

/-- A draw below a positive bound that the source reaches succeeds. -/
theorem below_of_pos {bound : Int} {s : σ} (h : 0 < bound) (hr : Source.Reaches s bound) :
    ∃ n s', below bound s = (.ok n, s') := by
  simp only [below, dif_pos h, if_pos hr]
  exact ⟨_, _, rfl⟩

end Draw

end RecordForge
