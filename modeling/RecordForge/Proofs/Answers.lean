import RecordForge.Proofs.Resolution

/-!
# What a question does with the answers

A question is asked until an answer to it is accepted. The answers before that one had it repeated, and the
answers after it are left for what comes next. `Answered` says so without the dialog.

* `Answered`: which answer is accepted, and which answers are left.
* `ask_answered`, **`ask_of_answered`**: a question succeeds exactly if it is answered.
* `ask_error`: otherwise the answers have run out, or one of them ends the dialog.
-/

namespace RecordForge

variable {α : Type} {prompt : String} {judge : String → Verdict α} {answers rest : List String}

/-- Among some answers one is accepted, after answers that have the question repeated; the answers after
it are left. -/
def Answered (judge : String → Verdict α) (answers : List String) (a : α) (rest : List String) : Prop :=
  ∃ refused line, answers = refused ++ line :: rest ∧ judge (trimmed line) = .accept a ∧
    ∀ x ∈ refused, (judge (trimmed x)).reply?.isSome

namespace Dialog

/-- An answer that has the question repeated leaves it to the answers after it. -/
theorem askFrom_of_reply {line : String} (h : (judge (trimmed line)).reply?.isSome)
    (answers : List String) (events : List Event) :
    ∃ said, askFrom prompt judge (line :: answers) events = askFrom prompt judge answers said := by
  simp only [askFrom]
  cases hj : judge (trimmed line) with
  | accept a => rw [hj] at h; cases h
  | abort e => rw [hj] at h; cases h
  | explain text => exact ⟨_, rfl⟩
  | reject text => exact ⟨_, rfl⟩

theorem askFrom_of_answered (prompt : String) {a : α} {line : String}
    (hline : judge (trimmed line) = .accept a) :
    ∀ {refused : List String}, (∀ x ∈ refused, (judge (trimmed x)).reply?.isSome) →
      ∀ events, ∃ said, askFrom prompt judge (refused ++ line :: rest) events = (.ok a, ⟨rest, said⟩)
  | [], _, events => by
    simp only [List.nil_append, askFrom, hline]
    exact ⟨_, rfl⟩
  | x :: refused, h, events => by
    obtain ⟨hx, hrefused⟩ := List.forall_mem_cons.mp h
    obtain ⟨said, hsaid⟩ := askFrom_of_reply hx (refused ++ line :: rest) events
    rw [List.cons_append, hsaid]
    exact askFrom_of_answered prompt hline hrefused said

/-- A question that succeeds is answered. -/
theorem ask_answered {a : α} {s t : Session} (h : (ask prompt judge).run s = (.ok a, t)) :
    Answered judge s.answers a t.answers := askFrom_ok h

/-- **A question that is answered succeeds**, and leaves the answers after that one. -/
theorem ask_of_answered (prompt : String) {a : α} (h : Answered judge answers a rest)
    (events : List Event) :
    ∃ said, (ask prompt judge).run ⟨answers, events⟩ = (.ok a, ⟨rest, said⟩) := by
  obtain ⟨refused, line, rfl, hline, hrefused⟩ := h
  exact askFrom_of_answered prompt hline hrefused events

/-- A question that fails has used up all answers, or one of them ends the dialog. -/
theorem ask_error {e : Failure} {s t : Session} (h : (ask prompt judge).run s = (.error e, t)) :
    e = .exhausted (trimmed prompt) ∧ t.answers = [] ∨ ∃ line, judge line = .abort e := by
  change askFrom prompt judge s.answers s.events = (.error e, t) at h
  generalize s.answers = answers, s.events = events at h
  induction answers generalizing events with
  | nil =>
    cases h
    exact .inl ⟨rfl, rfl⟩
  | cons line rest ih =>
    simp only [askFrom] at h
    cases hj : judge (trimmed line) with
    | accept a =>
      rw [hj] at h
      cases h
    | abort e' =>
      rw [hj] at h
      cases h
      exact .inr ⟨_, hj⟩
    | explain text =>
      rw [hj] at h
      exact ih _ h
    | reject text =>
      rw [hj] at h
      exact ih _ h

end Dialog

end RecordForge
