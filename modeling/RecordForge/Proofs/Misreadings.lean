import RecordForge.Proofs.Entries

/-!
# Commands that are mistyped

The word of a mode begins a command only if clauses follow it. Where they do not, the whole text may still be read
as clauses, and for the mode `incr` it can be: its first two letters are the keyword `in`, which needs no blank after
it. A mistyped command with this mode is then a set of texts, the first of which begins with `cr`.

* `readClauses_incr`: the clauses of a text field that begin with the word `incr`.
* `readStrategy_word`, `readStrategy_incr`: what a line says with clauses after the word of its mode, and without.
* **`incr_answer_judged`**: what becomes of an answer that begins with the word `incr`.
-/

namespace RecordForge

open Text

namespace Command

section

variable {g : Grammar} {d : Descriptor} {p : Parts} {t : List Char}

theorem incr_mem {kind : Kind} (hg : grammar? kind = some g) (hkind : kind = .string ∨ kind = .enum) :
    Mode.incr ∈ g.modes := by
  rcases hkind with rfl | rfl
  all_goals
    obtain rfl := Option.some.inj hg
    decide

/-- Clauses of a text field that begin with the word `incr` are the keyword `in` and texts. -/
theorem readClauses_incr {kind : Kind} (hg : grammar? kind = some g) (hkind : kind = .string ∨ kind = .enum)
    (t : List Char) : readClauses g.clauses (Mode.incr.word.toList ++ t) =
      if FilledPieces ('c' :: 'r' :: t) then some [(.items, 'c' :: 'r' :: t)] else none := by
  have hitems : Clause.read? ⟨.items, "in", .texts⟩ (Mode.incr.word.toList ++ t) =
      if FilledPieces ('c' :: 'r' :: t) then some ('c' :: 'r' :: t, []) else none := by
    have hstart : StartsFilled ('c' :: 'r' :: t) := by
      intro c hc
      obtain rfl := Option.some.inj hc
      decide
    show (texts? ('c' :: 'r' :: t)).map _ = _
    rw [texts?_eq, itemsText_eq hstart]
    split <;> rfl
  have hlast : readClauses [⟨.items, "in", .texts⟩] (Mode.incr.word.toList ++ t) =
      if FilledPieces ('c' :: 'r' :: t) then some [(.items, 'c' :: 'r' :: t)] else none := by
    by_cases hfilled : FilledPieces ('c' :: 'r' :: t)
    · rw [readClauses, hitems, if_pos hfilled, if_pos hfilled]
      rfl
    · rw [readClauses, hitems, if_neg hfilled, if_neg hfilled]
      rfl
  -- the keywords before the last one begin with other letters
  rcases hkind with rfl | rfl
  · obtain rfl := Option.some.inj hg
    exact hlast
  · obtain rfl := Option.some.inj hg
    exact hlast

/-- A line with a mode and clauses says what these say. -/
theorem readStrategy_word {m : Mode} (hm : m ∈ g.modes) {line : String} (hline : line.toList = m.word.toList ++ t)
    {ops : List (Part × List Char)} (hops : readClauses g.clauses t = some ops) :
    readStrategy g d line = strategyOf d ⟨some m, ops⟩ := by
  rw [readStrategy, hline, read?_word hm, hops]

/-- A line with the word `incr` but without clauses after it is a set of texts, or cannot be read. -/
theorem readStrategy_incr (hg : grammar? d.kind = some g) (hkind : d.kind = .string ∨ d.kind = .enum) {line : String}
    (hline : line.toList = Mode.incr.word.toList ++ t) (hnone : readClauses g.clauses t = none) :
    readStrategy g d line =
      if FilledPieces ('c' :: 'r' :: t) then strategyOf d ⟨none, [(.items, 'c' :: 'r' :: t)]⟩
      else .error (.complaint .unreadable) := by
  have hmode : Mode.incr ∈ g.modes := incr_mem hg hkind
  rw [readStrategy, hline, read?_word hmode, hnone, readClauses_incr hg hkind]
  by_cases hfilled : FilledPieces ('c' :: 'r' :: t)
  · rw [if_pos hfilled, if_pos hfilled]
    rfl
  · rw [if_neg hfilled, if_neg hfilled]
    rfl

theorem mode_of_strategyOf (hkind : d.kind = .string ∨ d.kind = .enum) {s : Strategy} (h : strategyOf d p = .ok s) :
    s.mode = p.mode.getD .rand := by
  rcases hkind with hkind | hkind
  · rw [(strategyOf_string hkind).2] at h
    exact (stringStrategy_content h).1
  · rw [(strategyOf_enum hkind).2] at h
    exact (enumStrategy_content h).1

/-- A set of texts without a mode. An enum has to have all of them. -/
theorem strategyOf_items (hkind : d.kind = .string ∨ d.kind = .enum) (x : List Char) :
    strategyOf d ⟨none, [(.items, x)]⟩ =
      if d.kind = .string ∨ ∀ s ∈ textItems x, s ∈ d.symbols then
        .ok { mode := .rand, items := some ((textItems x).map .text) }
      else .error (.complaint (.unknownSymbols ((firsts (textItems x)).filter fun s => !d.symbols.contains s))) := by
  rcases hkind with hkind | hkind
  · rw [(strategyOf_string hkind).2, if_pos (Or.inl hkind)]
    rfl
  · have hunknown : ((firsts (textItems x)).filter fun s => !d.symbols.contains s).isEmpty = true ↔
        ∀ s ∈ textItems x, s ∈ d.symbols := by
      rw [List.isEmpty_iff, List.filter_eq_nil_iff]
      simp [mem_firsts]
    have hstring : ¬d.kind = .string := by
      rw [hkind]
      decide
    simp only [(strategyOf_enum hkind).2, or_iff_right hstring, ← hunknown]
    rfl

end

end Command

namespace Dialog

open Command

theorem toList_trimmed (answer : String) : (trimmed answer).toList = trim answer.toList := String.toList_ofList

/-- An answer does not end with a line break, once it is trimmed. -/
theorem getLast?_trimmed (answer : String) : (trimmed answer).toList.getLast? ≠ some '\n' := by
  intro hlast
  rw [toList_trimmed] at hlast
  exact absurd (endsFilled_trim answer.toList '\n' hlast) (by decide)

/-- **What becomes of an answer that begins with the word `incr`**, for a string or an enum. If clauses follow the
word, it is a command with that mode, and no strategy of another mode comes of it. Otherwise what follows the letters
`in` is a set of texts, if none of them is empty. It has the mode `rand`, and is accepted for a string, and for an enum
that has all of them. Only an answer that is neither cannot be read, and the question is asked again. -/
theorem incr_answer_judged {answer : String} {d : Descriptor} {g : Grammar} (hg : grammar? d.kind = some g)
    (hkind : d.kind = .string ∨ d.kind = .enum) {t : List Char}
    (hanswer : (trimmed answer).toList = "incr".toList ++ t) (name : String) :
    (∀ ps, Phrases g.clauses ps → phrasesText ps = t →
      readStrategy g d (trimmed answer) = strategyOf d ⟨some .incr, ps.map Phrase.operand⟩ ∧
        ∀ s, judgeStrategy g name d (trimmed answer) = .accept s → s.mode = .incr) ∧
      ((¬∃ ps, Phrases g.clauses ps ∧ phrasesText ps = t) → FilledPieces ('c' :: 'r' :: t) →
        judgeStrategy g name d (trimmed answer) =
          if d.kind = .string ∨ ∀ s ∈ textItems ('c' :: 'r' :: t), s ∈ d.symbols then
            .accept { mode := .rand, items := some ((textItems ('c' :: 'r' :: t)).map .text) }
          else .reject (Complaint.unknownSymbols
            ((firsts (textItems ('c' :: 'r' :: t))).filter fun s => !d.symbols.contains s)).message) ∧
      ((¬∃ ps, Phrases g.clauses ps ∧ phrasesText ps = t) → ¬FilledPieces ('c' :: 'r' :: t) →
        ∀ rest events, (askStrategy name d).run ⟨answer :: rest, events⟩ =
          (askStrategy name d).run ⟨rest, events ++
            [.prompt (strategyPrompt d.kind name), .diagnostic Complaint.unreadable.message]⟩) := by
  have hclear := clear_clauses hg
  have hline : (trimmed answer).toList = Mode.incr.word.toList ++ t := hanswer
  have hhelp := ne_help hline
  have hend : t.getLast? ≠ some '\n' := by
    intro hlast
    have hfilled := endsFilled_trim answer.toList '\n'
    rw [← String.toList_ofList (l := trim answer.toList)] at hfilled
    change '\n' ∈ (trimmed answer).toList.getLast? → _ at hfilled
    rw [hline, List.getLast?_append, hlast] at hfilled
    exact absurd (hfilled rfl) (by decide)
  have hnone (h : ¬∃ ps, Phrases g.clauses ps ∧ phrasesText ps = t) : readClauses g.clauses t = none := by
    rw [Option.eq_none_iff_forall_ne_some]
    intro ops hops
    obtain ⟨ps, hps, rfl, -⟩ := (readClauses_iff hclear hend).mp hops
    exact h ⟨ps, hps, rfl⟩
  refine ⟨fun ps hps htext => ?_, fun h hfilled => ?_, fun h hfilled rest events => ?_⟩
  · have hread : readStrategy g d (trimmed answer) = strategyOf d ⟨some .incr, ps.map Phrase.operand⟩ :=
      readStrategy_word (incr_mem hg hkind) hline (htext ▸ readClauses_phrases hclear hps)
    refine ⟨hread, fun s hs => ?_⟩
    exact mode_of_strategyOf hkind (hread.symm.trans (readStrategy_of_accept hs))
  · have hread := readStrategy_incr hg hkind hline (hnone h)
    rw [if_pos hfilled, strategyOf_items hkind] at hread
    rw [judgeStrategy, if_neg hhelp, hread]
    by_cases hknown : d.kind = .string ∨ ∀ s ∈ textItems ('c' :: 'r' :: t), s ∈ d.symbols
    · rw [if_pos hknown, if_pos hknown]
    · rw [if_neg hknown, if_neg hknown]
  · have hread := readStrategy_incr hg hkind hline (hnone h)
    rw [if_neg hfilled] at hread
    have hjudge : judgeStrategy g name d (trimmed answer) = .reject Complaint.unreadable.message := by
      rw [judgeStrategy, if_neg hhelp, hread]
    rw [askStrategy, hg]
    show askFrom _ _ (answer :: rest) events = _
    rw [askFrom, hjudge]
    rfl

/-- `incr form 3 to 8` gives a set of one text, and `incr,` cannot be read. -/
theorem incr_answer_judged_form :
    judgeStrategy stringGrammar "s" (.plain "s" .string) (trimmed " incr form 3 to 8") =
      .accept { mode := .rand, items := some [.text "cr form 3 to 8"] } ∧
    (askStrategy "s" (.plain "s" .string)).run ⟨["incr,", "incr"], []⟩ =
      (askStrategy "s" (.plain "s" .string)).run ⟨["incr"],
        [.prompt "Strategy for string 's':", .diagnostic "Could not parse input. Enter 'help' for more info."]⟩ := by
  have hclear : Clause.Clear stringGrammar.clauses := clear_clauses (rfl : grammar? .string = _)
  have hno {t : List Char} (ht : readClauses stringGrammar.clauses t = none) :
      ¬∃ ps, Phrases stringGrammar.clauses ps ∧ phrasesText ps = t := by
    rintro ⟨ps, hps, rfl⟩
    rw [readClauses_phrases hclear hps] at ht
    cases ht
  obtain ⟨-, hset, -⟩ := incr_answer_judged (d := .plain "s" .string) (g := stringGrammar) rfl (Or.inl rfl)
    (by decide : (trimmed " incr form 3 to 8").toList = "incr".toList ++ " form 3 to 8".toList) "s"
  obtain ⟨-, -, hagain⟩ := incr_answer_judged (d := .plain "s" .string) (g := stringGrammar) rfl (Or.inl rfl)
    (by decide : (trimmed "incr,").toList = "incr".toList ++ [',']) "s"
  exact ⟨hset (hno (by decide)) (by decide), hagain (hno (by decide)) (by decide) ["incr"] []⟩

end Dialog

end RecordForge
