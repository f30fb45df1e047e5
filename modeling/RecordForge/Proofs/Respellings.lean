import RecordForge.Proofs.Matches
import RecordForge.Proofs.Misreadings
import RecordForge.Proofs.Spellings

/-!
# Commands of numbers in plain spelling

A command of numbers may have blanks around its keywords and after its commas, and digits of any script. Without the
blanks, and with ASCII digits, it is a command again: no two clauses run into each other, since a keyword begins with
a letter and a number does not go on with one. Each operand spells the same number as before.

* `plain`: a text without its blanks and with ASCII digits.
* `plain_append`, `values_plain`, `items_plain`: what it does to a text in parts, to its digits and to a list.
* `Operand.Takes.plain`, `Wording.Of.plain`: an operand and a command in plain spelling are an operand and a command.
* `read?_plain`, `strategyOf_plain`: they have the same parts in plain spelling, and these say the same strategy.
* **`plain_answer_accepted`**: an answer that is accepted is accepted in plain spelling, with the same strategy.
-/

namespace RecordForge

open Text Numeral

namespace Text

/-! ## Plain texts -/

/-- The ASCII digit of the same value; any other character as it is. -/
def plainDigit (c : Char) : Char := ((digit? c).map Nat.digitChar).getD c

/-- A text without its blanks and with ASCII digits. -/
def plain (s : List Char) : List Char := (s.filter fun c => !isBlank c).map plainDigit

variable {s t : List Char}

theorem plain_append (s t : List Char) : plain (s ++ t) = plain s ++ plain t := by
  rw [plain, List.filter_append, List.map_append]
  rfl

theorem plain_cons_of_filled {c : Char} (hc : isBlank c = false) (s : List Char) :
    plain (c :: s) = plainDigit c :: plain s := by
  rw [plain, List.filter_cons_of_pos (by simp [hc])]
  rfl

theorem plain_reverse (s : List Char) : plain s.reverse = (plain s).reverse := by
  rw [plain, List.filter_reverse, List.map_reverse]
  rfl

/-- Nothing is left of blanks. -/
theorem plain_of_blanks (h : IsBlanks s) : plain s = [] := by
  have hnone : (s.filter fun c => !isBlank c) = [] := by
    rw [List.filter_eq_nil_iff]
    intro c hc
    simp [h c hc]
  rw [plain, hnone]
  rfl

theorem plain_trimLeft (s : List Char) : plain (trimLeft s) = plain s := by
  obtain ⟨b, hb, hs⟩ := exists_trimLeft s
  rw [congrArg plain hs, plain_append, plain_of_blanks hb, List.nil_append]

theorem plain_trim (s : List Char) : plain (trim s) = plain s := by
  change plain (trimLeft (trimLeft s).reverse).reverse = plain s
  rw [plain_reverse, plain_trimLeft, plain_reverse, List.reverse_reverse, plain_trimLeft]

/-- A digit keeps its value. -/
theorem digit?_plainDigit (c : Char) : digit? (plainDigit c) = digit? c := by
  have hdigits : ∀ d < 10, digit? (Nat.digitChar d) = some d := by decide
  rw [plainDigit]
  cases hc : digit? c with
  | none => exact hc
  | some d => exact hdigits d (digit?_lt hc)

theorem isDigit_plainDigit (c : Char) : isDigit (plainDigit c) = isDigit c := by
  rw [isDigit, digit?_plainDigit, isDigit]

theorem plainDigit_of_not {c : Char} (hc : isDigit c = false) : plainDigit c = c := by
  rw [isDigit, Option.isSome_eq_false_iff, Option.isNone_iff_eq_none] at hc
  rw [plainDigit, hc]
  rfl

/-- A sign, a point or a comma is no digit, so it stays, and no digit becomes one. -/
theorem plainDigit_eq_iff {c d : Char} (hd : isDigit d = false) : plainDigit c = d ↔ c = d := by
  constructor
  · intro h
    have hc : isDigit c = false := by rw [← isDigit_plainDigit, h, hd]
    rwa [plainDigit_of_not hc] at h
  · rintro rfl
    exact plainDigit_of_not hd

/-- No blank is left. -/
theorem filled_plain (s : List Char) : ∀ c ∈ plain s, isBlank c = false := by
  intro c hc
  obtain ⟨d, hd, rfl⟩ := List.mem_map.mp hc
  have hfilled : isBlank d = false := by simpa using (List.mem_filter.mp hd).2
  by_cases hdigit : isDigit d = true
  · exact isBlank_of_digit (by rwa [isDigit_plainDigit])
  · rwa [plainDigit_of_not (by simpa using hdigit)]

theorem startsFilled_plain (s : List Char) : StartsFilled (plain s) :=
  fun c hc => filled_plain s c (List.mem_of_mem_head? hc)

theorem trim_plain (s : List Char) : trim (plain s) = plain s :=
  trim_eq (startsFilled_plain s) fun c hc => filled_plain s c (List.mem_of_mem_getLast? hc)

/-- The digits of a text keep their values. -/
theorem values_plain (s : List Char) : values (plain s) = values s := by
  induction s with
  | nil => rfl
  | cons c s ih =>
    by_cases hc : isBlank c = true
    · have hdigit : isDigit c = false := by
        by_contra hdigit
        rw [isBlank_of_digit (by simpa using hdigit)] at hc
        cases hc
      have hdrop : plain (c :: s) = plain s := by rw [plain, List.filter_cons_of_neg (by simp [hc])]; rfl
      rw [hdrop, values_cons_of_not hdigit, ih]
    · rw [values] at ih
      rw [plain_cons_of_filled (by simpa using hc), values, List.filterMap_cons, digit?_plainDigit, ih, values,
        values, List.filterMap_cons]

/-- The pieces of a text are those of the text in plain spelling. -/
theorem pieces_plain (s : List Char) : pieces (plain s) = (pieces s).map plain := by
  have hnot {t : List Char} (ht : ',' ∉ t) : ',' ∉ plain t := by
    intro hc
    obtain ⟨d, hd, heq⟩ := List.mem_map.mp hc
    rw [plainDigit_eq_iff (by decide)] at heq
    exact ht (heq ▸ (List.mem_filter.mp hd).1)
  induction s using pieces_induction with
  | one p hp =>
    rw [pieces_of_not_mem hp, pieces_of_not_mem (hnot hp)]
    rfl
  | more p t hp ih =>
    have hcomma : plain (',' :: t) = ',' :: plain t := plain_cons_of_filled (by decide) t
    rw [plain_append, hcomma, pieces_append (hnot hp), pieces_append hp, ih]
    rfl

/-- So are its items. -/
theorem items_plain (s : List Char) : items (plain s) = (items s).map plain := by
  rw [items, pieces_plain, items]
  cases pieces s with
  | nil => rfl
  | cons first rest =>
    simp only [List.map_cons, List.map_map]
    congr 1
    apply List.map_congr_left
    intro q _
    rw [Function.comp_apply, Function.comp_apply, plain_trimLeft, trimLeft_eq (startsFilled_plain q)]

end Text

namespace Command

/-! ## Numbers in plain spelling -/

section Numbers

variable {x : List Char}

theorem plain_of_digits (h : ∀ c ∈ x, isDigit c = true) : plain x = x.map plainDigit := by
  rw [plain, List.filter_eq_self.mpr]
  intro c hc
  simp [isBlank_of_digit (h c hc)]

theorem isDigit_of_mem_plain (h : ∀ c ∈ x, isDigit c = true) : ∀ c ∈ plain x, isDigit c = true := by
  intro c hc
  rw [plain_of_digits h] at hc
  obtain ⟨d, hd, rfl⟩ := List.mem_map.mp hc
  rw [isDigit_plainDigit]
  exact h d hd

theorem IsNatural.plain (h : IsNatural x) : IsNatural (plain x) := by
  refine ⟨?_, isDigit_of_mem_plain h.2⟩
  rw [plain_of_digits h.2]
  exact List.map_eq_nil_iff.not.mpr h.1

theorem IsInteger.plain (h : IsInteger x) : IsInteger (plain x) := by
  rcases h with h | ⟨ds, rfl, h⟩
  · exact Or.inl h.plain
  · exact Or.inr ⟨Text.plain ds, plain_cons_of_filled (by decide) ds, h.plain⟩

theorem IsDecimal.plain (h : IsDecimal x) : IsDecimal (plain x) := by
  rcases h with h | ⟨whole, ds, rfl, h, hds⟩
  · exact Or.inl h.plain
  · refine Or.inr ⟨Text.plain whole, Text.plain ds, ?_, h.plain, isDigit_of_mem_plain hds⟩
    rw [plain_append, plain_cons_of_filled (by decide)]
    rfl

/-- A number keeps its sign. -/
theorem head?_plain (h : StartsFilled x) : (plain x).head? = some '-' ↔ x.head? = some '-' := by
  cases x with
  | nil => rfl
  | cons c x =>
    rw [plain_cons_of_filled (h c rfl), List.head?_cons, List.head?_cons, Option.some_inj, Option.some_inj]
    exact plainDigit_eq_iff (by decide)

theorem spelledInteger_plain (h : StartsFilled x) : spelledInteger (plain x) = spelledInteger x := by
  have hnumber : numberOf (plain x) = numberOf x := congrArg ofDigits (values_plain x)
  rw [spelledInteger, hnumber, spelledInteger]
  simp only [head?_plain h]

/-- It keeps as many digits after its point. -/
theorem places_plain (h : IsDecimal x) : places (plain x) = places x := by
  rcases h with h | ⟨whole, ds, rfl, h, hds⟩
  · have hnone {y : List Char} (hy : IsInteger y) : places y = 0 := by
      have hdrop := dropWhile_point hy []
      rw [List.append_nil] at hdrop
      rw [places, hdrop]
      rfl
    rw [hnone h, hnone h.plain]
  · have hpoint : Text.plain ('.' :: ds) = '.' :: Text.plain ds := plain_cons_of_filled (by decide) ds
    have hafter (t : List Char) : values (('.' :: t).dropWhile (· ≠ '.')) = values t := values_cons_of_not (by decide) t
    rw [plain_append, hpoint, places, places, dropWhile_point h.plain, dropWhile_point h, hafter, hafter, values_plain]

theorem integerOperand_plain (h : IsInteger x) (keyword : String) (low high : Int) :
    integerOperand keyword low high (plain x) = integerOperand keyword low high x := by
  rw [integerOperand_of_spelled h.plain, integerOperand_of_spelled h, values_plain, spelledInteger_plain h.startsFilled]

theorem integerOr_plain {y : Option (List Char)} (h : ∀ x ∈ y, IsInteger x) (default : Int) (keyword : String)
    (low high : Int) : integerOr default keyword low high (y.map plain) = integerOr default keyword low high y := by
  cases y with
  | none => rfl
  | some x => exact integerOperand_plain (h x rfl) keyword low high

theorem decimalOr_plain {y : Option (List Char)} (h : ∀ x ∈ y, IsDecimal x) (default : Float) (keyword : String) :
    decimalOr default keyword (y.map plain) = decimalOr default keyword y := by
  cases y with
  | none => rfl
  | some x =>
    have hx : IsDecimal x := h x rfl
    have hnumber : numberOf (plain x) = numberOf x := congrArg ofDigits (values_plain x)
    rw [Option.map_some, decimalOr_of_spelled hx.plain, decimalOr_of_spelled hx, hnumber, places_plain hx]
    simp only [head?_plain hx.startsFilled]

theorem integerItems_plain {low high : Int} : ∀ {xs : List (List Char)}, (∀ x ∈ xs, IsInteger x) →
    integerItems low high (xs.map plain) = integerItems low high xs
  | [], _ => rfl
  | x :: xs, h => by
    obtain ⟨hx, hxs⟩ := List.forall_mem_cons.mp h
    rw [List.map_cons, integerItems, integerItems, integerOperand_plain hx, integerItems_plain hxs]

end Numbers

/-! ## Commands in plain spelling -/

/-- An operand in plain spelling is an operand again. -/
theorem Operand.Takes.plain {o : Operand} (ho : o ≠ .texts) {t : List Char} (h : o.Takes t) : o.Takes (plain t) := by
  have htrim (t : List Char) : trimLeft (Text.plain t) = Text.plain (trimLeft t) := by
    rw [trimLeft_eq (startsFilled_plain t), plain_trimLeft]
  cases o with
  | natural =>
    have hx : IsNatural (trimLeft t) := h
    show IsNatural (trimLeft (Text.plain t))
    rw [htrim]
    exact hx.plain
  | integer =>
    have hx : IsInteger (trimLeft t) := h
    show IsInteger (trimLeft (Text.plain t))
    rw [htrim]
    exact hx.plain
  | decimal =>
    have hx : IsDecimal (trimLeft t) := h
    show IsDecimal (trimLeft (Text.plain t))
    rw [htrim]
    exact hx.plain
  | integers =>
    have hx : IsIntegers t := h
    show IsIntegers (Text.plain t)
    rw [IsIntegers, pieces_plain, List.forall_mem_map]
    intro q hq
    rw [htrim]
    exact (hx q hq).plain
  | texts => exact absurd rfl ho

theorem Operand.within_plain {o : Operand} (ho : o ≠ .texts) (t : List Char) :
    o.within (plain t) = plain (o.within t) := by
  cases o with
  | texts => exact absurd rfl ho
  | _ => exact (trimLeft_eq (startsFilled_plain t)).trans (plain_trimLeft t).symm

/-- A clause in plain spelling. -/
def Phrase.plain (p : Phrase) : Phrase := ⟨p.clause, [], Text.plain p.after⟩

/-- A command in plain spelling. -/
def Wording.plain (w : Wording) : Wording := ⟨w.mode, w.phrases.map Phrase.plain⟩

/-- The parts of a command in plain spelling. -/
def Parts.plain (p : Parts) : Parts := ⟨p.mode, p.operands.map fun e => (e.1, Text.plain e.2)⟩

/-- Clauses about numbers, with keywords that are in plain spelling. -/
def Clause.OfNumbers (cs : List Clause) : Prop :=
  ∀ c ∈ cs, c.operand ≠ .texts ∧ plain c.keyword.toList = c.keyword.toList

section

variable {g : Grammar} {w : Wording} {p : Parts} {s : List Char}

theorem ofNumbers_clauses {kind : Kind} (hg : grammar? kind = some g)
    (hkind : kind.isInteger = true ∨ kind.isDecimal = true) : Clause.OfNumbers g.clauses := by
  cases kind with
  | int | long | float | double =>
    obtain rfl := Option.some.inj hg
    simp only [Clause.OfNumbers, integerGrammar, decimalGrammar, List.forall_mem_cons]
    decide
  | _ => simp [Kind.isInteger, Kind.isDecimal] at hkind

theorem plain_word (m : Mode) : plain m.word.toList = m.word.toList := by
  cases m <;> decide

theorem Phrase.text_plain {p : Phrase} (hkeyword : Text.plain p.clause.keyword.toList = p.clause.keyword.toList)
    (hbefore : IsBlanks p.before) : p.plain.text = Text.plain p.text := by
  rw [Phrase.text, Phrase.text, plain_append, plain_append, plain_of_blanks hbefore, hkeyword]
  rfl

theorem phrasesText_plain (hcs : Clause.OfNumbers g.clauses) : ∀ {ps : List Phrase},
    (∀ p ∈ ps, p.clause ∈ g.clauses ∧ p.Proper) → phrasesText (ps.map Phrase.plain) = plain (phrasesText ps)
  | [], _ => rfl
  | p :: ps, h => by
    obtain ⟨⟨hclause, hproper⟩, hps⟩ := List.forall_mem_cons.mp h
    rw [List.map_cons, phrasesText_cons, phrasesText_cons, plain_append, phrasesText_plain hcs hps,
      Phrase.text_plain (hcs p.clause hclause).2 hproper.blanks]

/-- A command in plain spelling is a command again. -/
theorem Wording.Of.plain (hcs : Clause.OfNumbers g.clauses) (hw : w.Of g) : w.plain.Of g := by
  refine ⟨hw.mode, ?_, fun p hp => ?_⟩
  · have hsame : (w.phrases.map Phrase.plain).map Phrase.clause = w.phrases.map Phrase.clause := by
      rw [List.map_map]
      rfl
    rw [Wording.plain, hsame]
    exact hw.phrases.clauses
  · obtain ⟨q, hq, rfl⟩ := List.mem_map.mp hp
    have hclause : q.clause ∈ g.clauses := hw.phrases.clauses.subset (List.mem_map_of_mem hq)
    exact ⟨fun c hc => absurd hc List.not_mem_nil, (hw.phrases.proper q hq).takes.plain (hcs q.clause hclause).1⟩

theorem Wording.text_plain (hcs : Clause.OfNumbers g.clauses) (hw : w.Of g) : w.plain.text = Text.plain w.text := by
  obtain ⟨mode, ps⟩ := w
  have hps : ∀ p ∈ ps, p.clause ∈ g.clauses ∧ p.Proper := fun p hp =>
    ⟨hw.phrases.clauses.subset (List.mem_map_of_mem hp), hw.phrases.proper p hp⟩
  rw [Wording.text, Wording.text, plain_append, ← phrasesText_plain hcs hps]
  cases mode with
  | none => rfl
  | some m =>
    show m.word.toList ++ _ = Text.plain m.word.toList ++ _
    rw [plain_word]
    rfl

theorem Wording.parts_plain (hcs : Clause.OfNumbers g.clauses) (hw : w.Of g) : w.plain.parts = w.parts.plain := by
  have hoperands : (w.phrases.map Phrase.plain).map Phrase.operand =
      (w.phrases.map Phrase.operand).map fun e => (e.1, Text.plain e.2) := by
    rw [List.map_map, List.map_map, List.map_inj_left]
    intro p hp
    have hclause : p.clause ∈ g.clauses := hw.phrases.clauses.subset (List.mem_map_of_mem hp)
    exact congrArg _ (Operand.within_plain (hcs p.clause hclause).1 p.after)
  rw [Wording.parts, Wording.plain, hoperands]
  rfl

/-- A command of numbers that is worded is read. -/
theorem read?_of_plain (hplain : g.Plain) (hg : Clause.Clear g.clauses) (hw : w.Of g) :
    g.read? w.text = some w.parts := by
  obtain ⟨mode, ps⟩ := w
  have hclauses := readClauses_phrases hg hw.phrases
  cases mode with
  | some m =>
    show g.read? (m.word.toList ++ phrasesText ps) = _
    rw [read?_word (hw.mode m rfl), hclauses]
    rfl
  | none =>
    have hmode : g.mode? (phrasesText ps) = none := by
      rw [Option.eq_none_iff_forall_ne_some]
      rintro ⟨m, t⟩ hm
      obtain ⟨hmem, htext⟩ := mode?_iff.mp hm
      have hnone := hplain m hmem t
      rw [← htext, hclauses] at hnone
      cases hnone
    show g.read? (phrasesText ps) = _
    rw [Grammar.read?, hmode, Option.bind_none]
    simp only [hclauses, Option.map_some]
    rfl

/-- **What is read of a command of numbers is read of its plain spelling**, with the operands in plain spelling. -/
theorem read?_plain {kind : Kind} (hg : grammar? kind = some g)
    (hkind : kind.isInteger = true ∨ kind.isDecimal = true) (hs : s.getLast? ≠ some '\n')
    (hread : g.read? s = some p) : g.read? (plain s) = some p.plain := by
  have hclear := clear_clauses hg
  have hcs := ofNumbers_clauses hg hkind
  obtain ⟨w, hw, rfl, rfl⟩ : ∃ w : Wording, w.Of g ∧ w.text = s ∧ w.parts = p := by
    rcases (read?_iff hclear hs).mp hread with ⟨w, hw, -, htext, hparts⟩ | ⟨-, w, hw, -, htext, hparts⟩
    all_goals exact ⟨w, hw, htext, hparts⟩
  rw [← Wording.text_plain hcs hw, ← Wording.parts_plain hcs hw]
  exact read?_of_plain (plain_of_number hg hkind) hclear (hw.plain hcs)

theorem Parts.operand?_plain (p : Parts) (part : Part) : p.plain.operand? part = (p.operand? part).map Text.plain := by
  obtain ⟨mode, ops⟩ := p
  show (ops.map fun e => (e.1, Text.plain e.2)).lookup part = (ops.lookup part).map Text.plain
  induction ops with
  | nil => rfl
  | cons e ops ih =>
    obtain ⟨a, x⟩ := e
    rw [List.map_cons, List.lookup_cons, List.lookup_cons]
    by_cases ha : part == a
    · simp only [ha, Option.map_some]
    · simp only [ha, ih]

theorem checkDates_plain (p : Parts) (lower upper : Int) :
    checkDates p.plain lower upper = checkDates p lower upper := by
  rw [checkDates, checkDates, Parts.operand?_plain, Parts.operand?_plain, Option.isNone_map, Option.isNone_map]

/-- The operands in plain spelling say the same strategy, or are refused for the same reason. -/
theorem strategyOf_plain {d : Descriptor} (hg : grammar? d.kind = some g)
    (hkind : d.kind.isInteger = true ∨ d.kind.isDecimal = true) (hread : g.read? s = some p) :
    strategyOf d p.plain = strategyOf d p := by
  have hmode : p.plain.mode = p.mode := rfl
  rcases hkind with hkind | hkind
  · obtain ⟨hgrammar, hof⟩ := strategyOf_integer hkind
    obtain rfl := Option.some.inj (hg.symm.trans hgrammar)
    obtain ⟨hnumbers, hitems⟩ := integers_of_read? hread
    have hlower := hnumbers .lower (by decide)
    have hupper := hnumbers .upper (by decide)
    have hscale := hnumbers .scale (by decide)
    rw [hof, hof, integerStrategy, integerStrategy, hmode]
    simp only [Parts.operand?_plain, checkDates_plain, integerOr_plain hlower, integerOr_plain hupper,
      integerOr_plain hscale]
    cases hx : p.operand? .items with
    | none => rfl
    | some x => simp only [Option.map_some, items_plain, integerItems_plain (hitems x hx)]
  · obtain ⟨hgrammar, hof⟩ := strategyOf_decimal hkind
    obtain rfl := Option.some.inj (hg.symm.trans hgrammar)
    obtain ⟨hnumbers, hprecision⟩ := decimals_of_read? hread
    have hlower := hnumbers .lower (by decide)
    have hupper := hnumbers .upper (by decide)
    rw [hof, hof, decimalStrategy, decimalStrategy, hmode]
    simp only [Parts.operand?_plain, decimalOr_plain hlower, decimalOr_plain hupper, integerOr_plain hprecision]

/-- The word that asks for help is no command. -/
theorem read?_help {kind : Kind} (hg : grammar? kind = some g) (hkind : kind.isInteger = true ∨ kind.isDecimal = true) :
    g.read? "help".toList = none := by
  cases kind with
  | int | long | float | double =>
    obtain rfl := Option.some.inj hg
    rfl
  | _ => simp [Kind.isInteger, Kind.isDecimal] at hkind

end

end Command

namespace Dialog

open Command

/-- The first answer ends a dialog if it is accepted. -/
theorem askStrategy_of_accept {line name : String} {d : Descriptor} {g : Grammar} {strategy : Strategy}
    (hg : grammar? d.kind = some g) (haccept : judgeStrategy g name d (trimmed line) = .accept strategy)
    (rest : List String) (events : List Event) : (askStrategy name d).run ⟨line :: rest, events⟩ =
      (.ok strategy, ⟨rest, events ++ [.prompt (strategyPrompt d.kind name)]⟩) := by
  rw [askStrategy, hg]
  show askFrom _ _ (line :: rest) events = _
  rw [askFrom, haccept]

/-- An answer in plain spelling. -/
def plainAnswer (answer : String) : String := String.ofList (plain answer.toList)

theorem toList_trimmed_plainAnswer (answer : String) :
    (trimmed (plainAnswer answer)).toList = plain (trimmed answer).toList := by
  rw [plainAnswer, trimmed, String.toList_ofList, String.toList_ofList, trim_plain, trimmed, String.toList_ofList,
    plain_trim]

/-- A line that says a strategy says it in plain spelling. -/
theorem readStrategy_plain {line line' : String} {d : Descriptor} {g : Grammar} {strategy : Strategy}
    (hg : grammar? d.kind = some g) (hkind : d.kind.isInteger = true ∨ d.kind.isDecimal = true)
    (hend : line.toList.getLast? ≠ some '\n') (hline' : line'.toList = plain line.toList)
    (h : readStrategy g d line = .ok strategy) : readStrategy g d line' = .ok strategy := by
  cases hread : g.read? line.toList with
  | none =>
    rw [readStrategy, hread] at h
    cases h
  | some p =>
    rw [readStrategy, hread] at h
    rw [readStrategy, hline', read?_plain hg hkind hend hread]
    exact (strategyOf_plain hg hkind hread).trans h

/-- **An answer that is accepted is accepted in plain spelling**, for a field of numbers: without any of its blanks,
and with ASCII digits for the digits of any script, it gives the same strategy. -/
theorem plain_answer_accepted {answer name : String} {d : Descriptor} {g : Grammar} {strategy : Strategy}
    (hg : grammar? d.kind = some g) (hkind : d.kind.isInteger = true ∨ d.kind.isDecimal = true)
    (haccept : judgeStrategy g name d (trimmed answer) = .accept strategy) :
    judgeStrategy g name d (trimmed (plainAnswer answer)) = .accept strategy ∧
      ∀ rest events, (askStrategy name d).run ⟨plainAnswer answer :: rest, events⟩ =
        (.ok strategy, ⟨rest, events ++ [.prompt (strategyPrompt d.kind name)]⟩) := by
  have hplain := readStrategy_plain hg hkind (getLast?_trimmed answer) (toList_trimmed_plainAnswer answer)
    (readStrategy_of_accept haccept)
  have hhelp : trimmed (plainAnswer answer) ≠ "help" := by
    intro heq
    rw [heq, readStrategy, read?_help hg hkind] at hplain
    cases hplain
  have hjudge : judgeStrategy g name d (trimmed (plainAnswer answer)) = .accept strategy := by
    rw [judgeStrategy, if_neg hhelp, hplain]
  exact ⟨hjudge, askStrategy_of_accept hg hjudge⟩

/-- Digits of three scripts, and blanks within and around the clauses. -/
theorem plain_answer_accepted_scripts :
    judgeStrategy integerGrammar "n" (.plain "n" .int)
      (trimmed " incr from -\u0661\u096F to\u30001\u00A0scale \u09E9 ") =
        .accept { mode := .incr, bounds := .integers (-19) 1, scale := 3 } ∧
    plainAnswer " incr from -\u0661\u096F to\u30001\u00A0scale \u09E9 " = "incrfrom-19to1scale3" ∧
    judgeStrategy integerGrammar "n" (.plain "n" .int) (trimmed "incrfrom-19to1scale3") =
      .accept { mode := .incr, bounds := .integers (-19) 1, scale := 3 } := by
  have haccept : judgeStrategy integerGrammar "n" (.plain "n" .int)
      (trimmed " incr from -\u0661\u096F to\u30001\u00A0scale \u09E9 ") =
      .accept { mode := .incr, bounds := .integers (-19) 1, scale := 3 } := rfl
  have hplain : plainAnswer " incr from -\u0661\u096F to\u30001\u00A0scale \u09E9 " = "incrfrom-19to1scale3" := by
    decide
  have hjudge := (plain_answer_accepted rfl (Or.inl rfl) haccept).1
  rw [hplain] at hjudge
  exact ⟨haccept, hplain, hjudge⟩

end Dialog

end RecordForge
