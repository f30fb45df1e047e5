import RecordForge.Failure

/-!
# Chains of steps that may fail

A chain stops at the first step that fails. A dialog and the reading of a schema are chains that change
a state as well, and the state that a failure leaves is kept.

* `bind_eq_ok`, `map_eq_ok`: when a chain without a state succeeds.
* `run_bind`: what a chain with a state does.
* **`run_bind_ok`**, `run_bind_error`: when it succeeds, and when it fails.
-/

namespace RecordForge

/-! ## Without a state -/

/-- A chain of computations succeeds when its first one does and the rest after it does. -/
theorem bind_eq_ok {ε α β : Type} {x : Except ε α} {f : α → Except ε β} {b : β} :
    (x >>= f) = .ok b ↔ ∃ a, x = .ok a ∧ f a = .ok b := by
  cases x <;> simp [bind, Except.bind]

theorem map_eq_ok {ε α β : Type} {x : Except ε α} {f : α → β} {b : β} :
    x.map f = .ok b ↔ ∃ a, x = .ok a ∧ f a = b := by
  cases x <;> simp [Except.map]

/-! ## With a state -/

variable {S α β : Type}

theorem run_pure (a : α) (s : S) : (pure a : ExceptT Failure (StateM S) α).run s = (.ok a, s) := rfl

theorem run_throw (e : Failure) (s : S) :
    (throw e : ExceptT Failure (StateM S) α).run s = (.error e, s) := rfl

/-- A step that only may fail leaves the state. -/
theorem run_liftM (x : Except Failure α) (s : S) :
    (liftM x : ExceptT Failure (StateM S) α).run s = (x, s) := by
  cases x <;> rfl

/-- A chain stops at a failure and goes on from the state that a success leaves. -/
theorem run_bind (x : ExceptT Failure (StateM S) α) (f : α → ExceptT Failure (StateM S) β) (s : S) :
    (x >>= f).run s = match x.run s with
      | (.ok a, t) => (f a).run t
      | (.error e, t) => (.error e, t) := by
  show (match x.run s with | (r, t) => (ExceptT.bindCont f r).run t) = _
  rcases x.run s with ⟨_ | _, _⟩ <;> rfl

/-- A chain succeeds when its first step does and the rest after it does. -/
theorem run_bind_ok {x : ExceptT Failure (StateM S) α} {f : α → ExceptT Failure (StateM S) β} {b : β}
    {s u : S} :
    (x >>= f).run s = (.ok b, u) ↔ ∃ a t, x.run s = (.ok a, t) ∧ (f a).run t = (.ok b, u) := by
  rw [run_bind]
  rcases x.run s with ⟨_ | a, t⟩
  · constructor
    · intro h; cases h
    · rintro ⟨_, _, h, -⟩; cases h
  · constructor
    · intro h; exact ⟨a, t, rfl, h⟩
    · rintro ⟨_, _, h, h'⟩; cases h; exact h'

/-- A chain fails when its first step does, or the rest after it does. -/
theorem run_bind_error {x : ExceptT Failure (StateM S) α} {f : α → ExceptT Failure (StateM S) β}
    {e : Failure} {s u : S} :
    (x >>= f).run s = (.error e, u) ↔
      x.run s = (.error e, u) ∨ ∃ a t, x.run s = (.ok a, t) ∧ (f a).run t = (.error e, u) := by
  rw [run_bind]
  rcases x.run s with ⟨e' | a, t⟩
  · constructor
    · intro h; cases h; exact .inl rfl
    · rintro (h | ⟨_, _, h, -⟩)
      · cases h; rfl
      · cases h
  · constructor
    · intro h; exact .inr ⟨a, t, rfl, h⟩
    · rintro (h | ⟨_, _, h, h'⟩)
      · cases h
      · cases h; exact h'

end RecordForge
