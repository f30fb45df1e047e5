import RecordForge.Proofs.Days
import RecordForge.Proofs.Resolution

/-!
# Strategies that a dialog lets pass

A dialog about a strategy reads answers until one of them is a command that the field can follow. The
strategy is what that answer says, and whatever the answers are, it is a valid one.

* `Strategy.Valid.integerSpan`, `Strategy.Valid.lengthSpan`: an integer field without items has a span, and a
  `string` field a span of lengths.
* `Strategy.Valid.dates`: a valid span of days lies between the stamps of two days.
* `askStrategy_answers`: which answers a dialog reads, and what becomes of them.
* **`asked_strategy_valid`**: the strategy of a dialog is what its last answer says, and is valid.
-/

namespace RecordForge

open Calendar Dialog

/-! ## Bounds of valid strategies -/

theorem Kind.isInteger_iff {k : Kind} : k.isInteger = true ↔ k = .int ∨ k = .long := by
  cases k <;> decide

namespace Strategy.Valid

variable {s : Strategy} {d : Descriptor}

/-- A valid strategy of an integer field without items has a span. -/
theorem integerSpan (h : s.Valid d) (hkind : d.kind.isInteger = true) (hitems : s.items = none) :
    ∃ lower upper, s.IntegerSpan lower upper := by
  have hcontent := h.content
  unfold Strategy.Content at hcontent
  cases hk : d.kind with
  | int | long =>
    rw [hk] at hcontent
    rcases hcontent with ⟨items, hsome, -⟩ | ⟨-, hspan⟩
    · rw [hitems] at hsome
      cases hsome
    · exact hspan
  | _ =>
    rw [hk] at hkind
    cases hkind

/-- A valid strategy of a `string` field without items has a span of lengths. -/
theorem lengthSpan (h : s.Valid d) (hkind : d.kind = .string) (hitems : s.items = none) :
    ∃ lower upper, s.LengthSpan lower upper := by
  have hcontent := h.content
  unfold Strategy.Content at hcontent
  rw [hkind] at hcontent
  rcases hcontent with ⟨items, hsome, -⟩ | ⟨-, hspan⟩
  · rw [hitems] at hsome
    cases hsome
  · exact hspan

/-- Random days are for integer fields. -/
theorem isInteger_of_date (h : s.Valid d) (hmode : s.mode = .date) : d.kind.isInteger = true := by
  have hmem := h.mode
  rw [hmode] at hmem
  cases hk : d.kind with
  | int | long => rfl
  | _ =>
    -- no other kind has the mode
    rw [hk] at hmem
    exact absurd hmem (by decide)

/-- The bounds of a valid strategy for random days are the stamps of two days, the first one earlier. -/
theorem dates (h : s.Valid d) (hmode : s.mode = .date) (hitems : s.items = none) :
    ∃ a b : Date, s.bounds = .integers a.toStamp b.toStamp ∧ 1000 ≤ a.year ∧ a.number < b.number := by
  obtain ⟨lower, upper, hspan⟩ := h.integerSpan (h.isInteger_of_date hmode) hitems
  obtain ⟨a, b, ha, hb, hlt⟩ := hspan.dates hmode
  obtain ⟨rfl, hyear⟩ := readStamp_eq_day_iff.mp ha
  obtain ⟨rfl, -⟩ := readStamp_eq_day_iff.mp hb
  exact ⟨a, b, hspan.bounds, hyear, hlt⟩

end Strategy.Valid

/-! ## Answers to a dialog -/

namespace Dialog

/-- A dialog that gives a strategy has asked again for every answer but the last one that it read, and
that one says the strategy. -/
theorem askStrategy_answers {name : String} {d : Descriptor} {strategy : Strategy} {s t : Session}
    (h : (askStrategy name d).run s = (.ok strategy, t)) :
    ∃ g refused line, Command.grammar? d.kind = some g ∧
      s.answers = refused ++ line :: t.answers ∧
      (∀ x ∈ refused, (judgeStrategy g name d (trimmed x)).reply?.isSome) ∧
      Command.readStrategy g d (trimmed line) = .ok strategy := by
  unfold askStrategy at h
  split at h
  · cases h
  · rename_i g hg
    obtain ⟨refused, line, hanswers, hacc, hrefused⟩ := askFrom_ok h
    exact ⟨g, refused, line, hg, hanswers, hrefused, readStrategy_of_accept hacc⟩

end Dialog

/-- **Only valid strategies leave a dialog.** Whatever the answers, the strategy of a dialog about a field
is the one that the last answer read says, all answers before that one having been refused or asked for
help. Its mode is one of the field's kind, and it has either at least one item, each a value of the field,
or a proper span within the limits of the kind; a span of random days reaches from one day of the calendar
to a later one. -/
theorem asked_strategy_valid {name : String} {d : Descriptor} {strategy : Strategy} {s t : Session}
    (h : (askStrategy name d).run s = (.ok strategy, t)) :
    (∃ g refused line, Command.grammar? d.kind = some g ∧
      s.answers = refused ++ line :: t.answers ∧
      (∀ x ∈ refused, (judgeStrategy g name d (trimmed x)).reply?.isSome) ∧
      Command.readStrategy g d (trimmed line) = .ok strategy) ∧
    strategy.Valid d ∧
    (strategy.mode = .date → strategy.items = none → ∃ a b : Date,
      strategy.bounds = .integers a.toStamp b.toStamp ∧ 1000 ≤ a.year ∧ a.number < b.number) := by
  obtain ⟨g, refused, line, hg, hanswers, hrefused, hread⟩ := askStrategy_answers h
  have hvalid : strategy.Valid d := Command.valid_of_readStrategy hg hread
  exact ⟨⟨g, refused, line, hg, hanswers, hrefused, hread⟩, hvalid, hvalid.dates⟩

/-- A day that is none and a request for help go before the command that is accepted. -/
theorem asked_strategy_valid_days : ∃ t,
    (askStrategy "day" (.plain "day" .int)).run
      ⟨["date from 20230229 to 20240301", "help", " date from 20240228 to 20240301 scale 2", "rand"], []⟩ =
        (.ok { mode := .date, bounds := .integers 20240228 20240301, scale := 2 }, t) ∧
    Strategy.Valid { mode := .date, bounds := .integers 20240228 20240301, scale := 2 }
      (.plain "day" .int) ∧
    ∃ a b : Date, Bounds.integers 20240228 20240301 = .integers a.toStamp b.toStamp ∧
      a.number < b.number := by
  obtain ⟨t, h⟩ : ∃ t, (askStrategy "day" (.plain "day" .int)).run
      ⟨["date from 20230229 to 20240301", "help", " date from 20240228 to 20240301 scale 2", "rand"], []⟩ =
        (.ok { mode := .date, bounds := .integers 20240228 20240301, scale := 2 }, t) := ⟨_, rfl⟩
  obtain ⟨-, hvalid, hdates⟩ := asked_strategy_valid h
  obtain ⟨a, b, hbounds, -, hlt⟩ := hdates rfl rfl
  exact ⟨t, h, hvalid, a, b, hbounds, hlt⟩

end RecordForge
