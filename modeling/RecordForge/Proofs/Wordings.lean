import RecordForge.Proofs.Operands

/-!
# The wording of a command

What a command is can be said without reading it: the word of a mode, and then clauses in the order of the grammar,
each of them a keyword with any blanks before it and what its operand takes after it. A grammar reads exactly the
texts that are worded like this, and the parts of a command are those of its wording.

* `Phrase`, `Phrase.Proper`, `Phrases`: a clause with all its characters, and those of a list of clauses.
* `Clause.Clear`: clauses that are told apart by their first letters, a list of texts being the last one.
* `readClauses_iff`, `phrases_unique`: clauses are read exactly as they are worded, and are worded in one way.
* `Wording`, `Wording.Of`: a command with all its characters, and the commands of a grammar.
* `Wording.unique`: a text is worded in one way with a mode, and in one way without.
* **`read?_iff`**: a command is read with a mode if it is worded with one, and without a mode otherwise.
-/

namespace RecordForge

open Text

namespace Command

/-! ## Phrases -/

/-- A clause as it stands in a command. -/
structure Phrase where
  clause : Clause
  /-- What stands before the keyword. -/
  before : List Char
  /-- What stands after the keyword, up to the next clause. -/
  after : List Char

/-- The characters of a phrase. -/
def Phrase.text (p : Phrase) : List Char := p.before ++ (p.clause.keyword.toList ++ p.after)

/-- The operand of a phrase, with its part. -/
def Phrase.operand (p : Phrase) : Part × List Char := (p.clause.part, p.clause.operand.within p.after)

/-- Blanks stand before the keyword of a phrase, and what its operand takes after it. -/
structure Phrase.Proper (p : Phrase) : Prop where
  blanks : IsBlanks p.before
  takes : p.clause.operand.Takes p.after

/-- The characters of phrases, one after the other. -/
def phrasesText (ps : List Phrase) : List Char := ps.flatMap Phrase.text

/-- Proper phrases of some clauses, in the order of these. -/
structure Phrases (cs : List Clause) (ps : List Phrase) : Prop where
  clauses : (ps.map Phrase.clause).Sublist cs
  proper : ∀ p ∈ ps, p.Proper

/-- Clauses that cannot be taken for each other, nor for a part of an operand before them. -/
structure Clause.Clear (cs : List Clause) : Prop where
  apart : Clause.Apart cs
  letters : ∀ c ∈ cs, EndsNumber c.keyword.toList
  last : cs.Pairwise fun c _ => c.operand ≠ .texts

section

variable {c : Clause} {cs : List Clause} {p : Phrase} {ps qs : List Phrase} {s : List Char}

theorem phrasesText_cons (p : Phrase) (ps : List Phrase) : phrasesText (p :: ps) = p.text ++ phrasesText ps := rfl

theorem Phrases.nil (cs : List Clause) : Phrases cs [] := ⟨List.nil_sublist cs, fun _ h => absurd h List.not_mem_nil⟩

theorem Phrases.skip (h : Phrases cs ps) : Phrases (c :: cs) ps := ⟨h.clauses.cons c, h.proper⟩

theorem Phrases.cons (hp : p.Proper) (h : Phrases cs ps) : Phrases (p.clause :: cs) (p :: ps) :=
  ⟨h.clauses.cons_cons p.clause, List.forall_mem_cons.mpr ⟨hp, h.proper⟩⟩

/-- Phrases leave out the first clause, or begin with it. -/
theorem Phrases.cases (h : Phrases (c :: cs) ps) :
    Phrases cs ps ∨ ∃ p qs, ps = p :: qs ∧ p.clause = c ∧ p.Proper ∧ Phrases cs qs := by
  cases ps with
  | nil => exact Or.inl (.nil cs)
  | cons p qs =>
    obtain ⟨hp, hproper⟩ := List.forall_mem_cons.mp h.proper
    have hclauses := h.clauses
    rw [List.map_cons] at hclauses
    by_cases hc : p.clause = c
    · subst hc
      exact Or.inr ⟨p, qs, rfl, rfl, hp, List.cons_sublist_cons.mp hclauses, hproper⟩
    · cases hclauses with
      | cons _ hsub => exact Or.inl ⟨hsub, h.proper⟩
      | cons_cons => exact absurd rfl hc

theorem Clause.Clear.tail (h : Clause.Clear (c :: cs)) : Clause.Clear cs where
  apart := ⟨(List.nodup_cons.mp h.apart.nodup).2, fun a ha => h.apart.filled a (List.mem_cons_of_mem c ha)⟩
  letters := fun a ha => h.letters a (List.mem_cons_of_mem c ha)
  last := h.last.of_cons

/-- What a phrase begins with belongs to no number. -/
theorem endsNumber_phrasesText (hcs : Clause.Clear cs) (hps : Phrases cs ps) : EndsNumber (phrasesText ps) := by
  intro a ha
  cases ps with
  | nil => cases ha
  | cons p ps =>
    have hmem : p.clause ∈ cs := hps.clauses.subset List.mem_cons_self
    have hproper := hps.proper p List.mem_cons_self
    cases hb : p.before with
    | nil =>
      obtain ⟨k, ks, hk, -⟩ := hcs.apart.filled p.clause hmem
      rw [phrasesText_cons, Phrase.text, hb, hk] at ha
      refine hcs.letters p.clause hmem a ?_
      rw [hk]
      exact ha
    | cons b bs =>
      rw [phrasesText_cons, Phrase.text, hb] at ha
      obtain rfl := Option.some.inj ha
      have hblank : isBlank b = true := hproper.blanks b (by rw [hb]; exact List.mem_cons_self)
      refine ⟨?_, ?_, ?_⟩
      · by_contra hdigit
        rw [isBlank_of_digit (by simpa using hdigit)] at hblank
        cases hblank
      · rintro rfl
        exact absurd hblank (by decide)
      · rintro rfl
        exact absurd hblank (by decide)

/-- After a phrase of the first clause stands what may stand after its operand. -/
theorem before_phrasesText (hcs : Clause.Clear (c :: cs)) (hps : Phrases cs ps) :
    c.operand.Before (phrasesText ps) := by
  have hends := endsNumber_phrasesText hcs.tail hps
  cases ho : c.operand with
  | texts =>
    have hlast : cs = [] := by
      cases cs with
      | nil => rfl
      | cons d cs => exact absurd ho ((List.pairwise_cons.mp hcs.last).1 d List.mem_cons_self)
    subst hlast
    have hnil : ps.map Phrase.clause = [] := List.sublist_nil.mp hps.clauses
    rw [List.map_eq_nil_iff.mp hnil]
    rfl
  | _ => exact hends

/-- A phrase is read by its clause. -/
theorem Clause.read?_phrase (hcs : Clause.Clear (p.clause :: cs)) (hp : p.Proper) (hps : Phrases cs ps) :
    p.clause.read? (p.text ++ phrasesText ps) = some (p.operand.2, phrasesText ps) := by
  obtain ⟨k, ks, hk, hblank⟩ := hcs.apart.filled p.clause List.mem_cons_self
  have hstart : StartsFilled (p.clause.keyword.toList ++ (p.after ++ phrasesText ps)) := by
    intro a ha
    rw [hk] at ha
    obtain rfl := Option.some.inj ha
    exact hblank
  rw [Clause.read?, Phrase.text, List.append_assoc, List.append_assoc, trimLeft_append hp.blanks,
    trimLeft_eq hstart, after?_eq_some_iff.mpr rfl, Option.bind_some]
  exact Operand.read?_append hp.takes (before_phrasesText hcs hps)

/-- A clause does not read phrases of other clauses. -/
theorem Clause.read?_phrases (hcs : Clause.Clear (c :: cs)) (hps : Phrases cs ps) :
    c.read? (phrasesText ps) = none := by
  obtain ⟨k, ks, hk, -⟩ := hcs.apart.filled c List.mem_cons_self
  have hother : after? c.keyword.toList (trimLeft (phrasesText ps)) = none := by
    rw [hk]
    cases ps with
    | nil => rfl
    | cons p ps =>
      have hmem : p.clause ∈ cs := hps.clauses.subset List.mem_cons_self
      have hproper := hps.proper p List.mem_cons_self
      obtain ⟨k', ks', hk', hblank⟩ := hcs.apart.filled p.clause (List.mem_cons_of_mem c hmem)
      have hne : k ≠ k' := by
        rintro rfl
        have hhead : p.clause.keyword.toList.head? = c.keyword.toList.head? := by
          rw [hk, hk', List.head?_cons, List.head?_cons]
        exact (List.nodup_cons.mp hcs.apart.nodup).1 (List.mem_map.mpr ⟨p.clause, hmem, hhead⟩)
      have hstart : StartsFilled (k' :: (ks' ++ p.after ++ phrasesText ps)) := by
        intro a ha
        obtain rfl := Option.some.inj ha
        exact hblank
      have htext : phrasesText (p :: ps) = p.before ++ k' :: (ks' ++ p.after ++ phrasesText ps) := by
        simp [phrasesText_cons, Phrase.text, hk']
      rw [htext, trimLeft_append hproper.blanks, trimLeft_eq hstart, after?, if_neg hne]
  rw [Clause.read?, hother]
  rfl

/-- Phrases of clauses are read as what they are. -/
theorem readClauses_phrases : ∀ {cs : List Clause} {ps : List Phrase}, Clause.Clear cs → Phrases cs ps →
    readClauses cs (phrasesText ps) = some (ps.map Phrase.operand)
  | [], ps, _, hps => by
    have hnil : ps.map Phrase.clause = [] := List.sublist_nil.mp hps.clauses
    rw [List.map_eq_nil_iff.mp hnil]
    rfl
  | c :: cs, ps, hcs, hps => by
    rcases hps.cases with hps | ⟨p, qs, rfl, rfl, hp, hqs⟩
    · rw [readClauses, Clause.read?_phrases hcs hps]
      exact readClauses_phrases hcs.tail hps
    · rw [readClauses, phrasesText_cons, Clause.read?_phrase hcs hp hqs]
      simp only [readClauses_phrases hcs.tail hqs, Option.map_some, List.map_cons]
      rfl

/-- What a clause reads is a phrase of it. -/
theorem Clause.of_read? {x rest : List Char} (h : c.read? s = some (x, rest)) :
    ∃ p : Phrase, p.clause = c ∧ p.Proper ∧ p.operand.2 = x ∧ s = p.text ++ rest := by
  obtain ⟨t, ht, hx⟩ := Option.bind_eq_some_iff.mp h
  obtain ⟨u, rfl, htakes, hwithin, -⟩ := Operand.of_read? hx
  obtain ⟨b, hb, hs⟩ := exists_trimLeft s
  refine ⟨⟨c, b, u⟩, rfl, ⟨hb, htakes⟩, hwithin, ?_⟩
  rw [hs, after?_eq_some_iff.mp ht, Phrase.text]
  simp

/-- What is read as clauses are phrases of them, unless a line feed ends it. -/
theorem phrases_of_readClauses : ∀ {cs : List Clause} {s : List Char} {ops : List (Part × List Char)},
    s.getLast? ≠ some '\n' → readClauses cs s = some ops →
      ∃ ps, Phrases cs ps ∧ s = phrasesText ps ∧ ops = ps.map Phrase.operand
  | [], s, ops, hs, h => by
    rw [readClauses] at h
    split at h
    · rename_i hend
      have hnil : s = [] := by
        rw [isEnd, Bool.or_eq_true, List.isEmpty_iff, beq_iff_eq] at hend
        rcases hend with hend | rfl
        · exact hend
        · exact absurd rfl hs
      obtain rfl := Option.some.inj h
      exact ⟨[], .nil [], hnil, rfl⟩
    · cases h
  | c :: cs, s, ops, hs, h => by
    rw [readClauses] at h
    split at h
    · rename_i x rest hread
      obtain ⟨more, hmore, rfl⟩ := Option.map_eq_some_iff.mp h
      obtain ⟨p, rfl, hp, rfl, rfl⟩ := Clause.of_read? hread
      have hrest : rest.getLast? ≠ some '\n' := by
        intro hlast
        rw [List.getLast?_append, hlast] at hs
        exact hs rfl
      obtain ⟨ps, hps, rfl, rfl⟩ := phrases_of_readClauses hrest hmore
      exact ⟨p :: ps, .cons hp hps, rfl, rfl⟩
    · obtain ⟨ps, hps, htext, hops⟩ := phrases_of_readClauses hs h
      exact ⟨ps, hps.skip, htext, hops⟩

/-- **Clauses are read exactly as they are worded.** -/
theorem readClauses_iff (hcs : Clause.Clear cs) (hs : s.getLast? ≠ some '\n') {ops : List (Part × List Char)} :
    readClauses cs s = some ops ↔ ∃ ps, Phrases cs ps ∧ s = phrasesText ps ∧ ops = ps.map Phrase.operand := by
  constructor
  · exact phrases_of_readClauses hs
  · rintro ⟨ps, hps, rfl, rfl⟩
    exact readClauses_phrases hcs hps

/-- Phrases of one clause with the same characters are the same. -/
theorem phrase_unique {p q : Phrase} (hclause : p.clause = q.clause)
    (hk : ∃ k ks, p.clause.keyword.toList = k :: ks ∧ isBlank k = false) (hp : p.Proper) (hq : q.Proper)
    (h : p.text = q.text) : p = q := by
  obtain ⟨c, before, after⟩ := p
  obtain ⟨c', before', after'⟩ := q
  obtain rfl : c = c' := hclause
  obtain ⟨k, ks, hk, hblank⟩ := hk
  have hstart (t : List Char) : StartsFilled (c.keyword.toList ++ t) := by
    intro a ha
    rw [hk] at ha
    obtain rfl := Option.some.inj ha
    exact hblank
  have htrim := congrArg trimLeft h
  simp only [Phrase.text] at h htrim
  rw [trimLeft_append hp.blanks, trimLeft_append hq.blanks, trimLeft_eq (hstart _), trimLeft_eq (hstart _)]
    at htrim
  obtain rfl := List.append_cancel_left htrim
  rw [List.append_cancel_right h]

/-- **Phrases with the same characters are the same.** -/
theorem phrases_unique : ∀ {cs : List Clause} {ps qs : List Phrase}, Clause.Clear cs → Phrases cs ps →
    Phrases cs qs → phrasesText ps = phrasesText qs → ps = qs
  | [], ps, qs, _, hps, hqs, _ => by
    have hnil {ps : List Phrase} (hps : Phrases [] ps) : ps = [] :=
      List.map_eq_nil_iff.mp (List.sublist_nil.mp hps.clauses)
    rw [hnil hps, hnil hqs]
  | c :: cs, ps, qs, hcs, hps, hqs, h => by
    -- the first clause reads a text only if a phrase of it stands there
    have hdiffer {ps : List Phrase} {p : Phrase} {qs : List Phrase} (hps : Phrases cs ps) (hc : p.clause = c)
        (hp : p.Proper) (hqs : Phrases cs qs) : phrasesText ps ≠ phrasesText (p :: qs) := by
      intro h
      have hread := Clause.read?_phrase (hc.symm ▸ hcs) hp hqs
      rw [hc, ← phrasesText_cons, ← h, Clause.read?_phrases hcs hps] at hread
      cases hread
    rcases hps.cases with hps' | ⟨p, ps', rfl, hpc, hp, hps'⟩
    · rcases hqs.cases with hqs' | ⟨q, qs', rfl, hqc, hq, hqs'⟩
      · exact phrases_unique hcs.tail hps' hqs' h
      · exact absurd h (hdiffer hps' hqc hq hqs')
    · rcases hqs.cases with hqs' | ⟨q, qs', rfl, hqc, hq, hqs'⟩
      · exact absurd h.symm (hdiffer hqs' hpc hp hps')
      · subst hpc
        have hread := Clause.read?_phrase hcs hp hps'
        have hread' := Clause.read?_phrase (hqc.symm ▸ hcs) hq hqs'
        rw [phrasesText_cons, phrasesText_cons] at h
        rw [hqc, ← h, hread] at hread'
        obtain ⟨-, hrest⟩ := Prod.mk.inj (Option.some.inj hread')
        rw [← hrest] at h
        rw [phrase_unique hqc.symm (hcs.apart.filled p.clause List.mem_cons_self) hp hq
          (List.append_cancel_right h), phrases_unique hcs.tail hps' hqs' hrest]

end

/-! ## Modes and clauses of a grammar -/

section

variable {g : Grammar} {m : Mode}

/-- No two clauses of a grammar can be mistaken for each other. -/
theorem apart_clauses {kind : Kind} (h : grammar? kind = some g) : Clause.Apart g.clauses := by
  have hapart : Clause.Apart integerGrammar.clauses ∧ Clause.Apart decimalGrammar.clauses ∧
      Clause.Apart stringGrammar.clauses ∧ Clause.Apart enumGrammar.clauses := by
    refine ⟨⟨by decide, ?_⟩, ⟨by decide, ?_⟩, ⟨by decide, ?_⟩, ⟨by decide, ?_⟩⟩ <;>
      simp [integerGrammar, decimalGrammar, stringGrammar, enumGrammar] <;> decide
  obtain ⟨hinteger, hdecimal, hstring, henum⟩ := hapart
  cases kind with
  | int | long =>
    obtain rfl := Option.some.inj h
    exact hinteger
  | float | double =>
    obtain rfl := Option.some.inj h
    exact hdecimal
  | string =>
    obtain rfl := Option.some.inj h
    exact hstring
  | enum =>
    obtain rfl := Option.some.inj h
    exact henum
  | _ => cases h

/-- Nor can they be taken for a part of an operand. -/
theorem clear_clauses {kind : Kind} (h : grammar? kind = some g) : Clause.Clear g.clauses := by
  have hletters : (∀ c ∈ integerGrammar.clauses, EndsNumber c.keyword.toList) ∧
      (∀ c ∈ decimalGrammar.clauses, EndsNumber c.keyword.toList) ∧
      (∀ c ∈ stringGrammar.clauses, EndsNumber c.keyword.toList) ∧
      ∀ c ∈ enumGrammar.clauses, EndsNumber c.keyword.toList := by
    simp [integerGrammar, decimalGrammar, stringGrammar, enumGrammar, EndsNumber]
    decide
  obtain ⟨hinteger, hdecimal, hstring, henum⟩ := hletters
  cases kind with
  | int | long =>
    obtain rfl := Option.some.inj h
    exact ⟨apart_clauses h, hinteger, by decide⟩
  | float | double =>
    obtain rfl := Option.some.inj h
    exact ⟨apart_clauses h, hdecimal, by decide⟩
  | string =>
    obtain rfl := Option.some.inj h
    exact ⟨apart_clauses h, hstring, by decide⟩
  | enum =>
    obtain rfl := Option.some.inj h
    exact ⟨apart_clauses h, henum, by decide⟩
  | _ => cases h

/-- The words of the modes begin with different letters. -/
theorem after?_word (m m' : Mode) (t : List Char) :
    after? m'.word.toList (m.word.toList ++ t) = if m' = m then some t else none := by
  cases m <;> cases m' <;> rfl

/-- The word of a mode is read as that mode. -/
theorem mode?_word (h : m ∈ g.modes) (t : List Char) : g.mode? (m.word.toList ++ t) = some (m, t) := by
  obtain ⟨modes, clauses⟩ := g
  rw [Grammar.mode?]
  induction modes with
  | nil => cases h
  | cons m' modes ih =>
    rw [List.findSome?_cons, after?_word]
    by_cases hm : m' = m
    · rw [if_pos hm, hm]
      rfl
    · rw [if_neg hm]
      exact ih ((List.mem_cons.mp h).resolve_left (Ne.symm hm))

theorem mode?_iff {s rest : List Char} : g.mode? s = some (m, rest) ↔ m ∈ g.modes ∧ s = m.word.toList ++ rest := by
  constructor
  · intro h
    obtain ⟨m', hm', heq⟩ := List.exists_of_findSome?_eq_some h
    obtain ⟨t, ht, heq⟩ := Option.map_eq_some_iff.mp heq
    obtain ⟨rfl, rfl⟩ := Prod.mk.inj heq
    exact ⟨hm', after?_eq_some_iff.mp ht⟩
  · rintro ⟨hm, rfl⟩
    exact mode?_word hm rest

end

/-! ## Commands -/

/-- A command with all its characters. -/
structure Wording where
  mode : Option Mode
  phrases : List Phrase

namespace Wording

/-- The characters of a command. -/
def text (w : Wording) : List Char := (w.mode.elim [] fun m => m.word.toList) ++ phrasesText w.phrases

/-- The parts of a command. -/
def parts (w : Wording) : Parts := ⟨w.mode, w.phrases.map Phrase.operand⟩

/-- A command of a grammar: one of its modes, or none, and phrases of its clauses. -/
structure Of (g : Grammar) (w : Wording) : Prop where
  mode : ∀ m ∈ w.mode, m ∈ g.modes
  phrases : Phrases g.clauses w.phrases

variable {g : Grammar} {w w' : Wording}

/-- **A text is worded in one way with a mode, and in one way without.** -/
theorem unique (hg : Clause.Clear g.clauses) (hw : w.Of g) (hw' : w'.Of g) (h : w.text = w'.text)
    (hmode : w.mode = none ↔ w'.mode = none) : w = w' := by
  obtain ⟨mode, ps⟩ := w
  obtain ⟨mode', qs⟩ := w'
  have hsame : mode = mode' ∧ phrasesText ps = phrasesText qs := by
    cases mode with
    | none =>
      obtain rfl : mode' = none := hmode.mp rfl
      exact ⟨rfl, h⟩
    | some m =>
      cases mode' with
      | none => cases hmode.mpr rfl
      | some m' =>
        have htext : m.word.toList ++ phrasesText ps = m'.word.toList ++ phrasesText qs := h
        have hafter := after?_word m m (phrasesText ps)
        rw [htext, after?_word, if_pos rfl] at hafter
        split at hafter
        · rename_i hm
          subst hm
          exact ⟨rfl, List.append_cancel_left htext⟩
        · cases hafter
  obtain rfl : ps = qs := phrases_unique hg hw.phrases hw'.phrases hsame.2
  rw [hsame.1]

end Wording

section

variable {g : Grammar} {s : List Char} {p : Parts}

/-- What follows the mode of a command that is read are its clauses. -/
theorem withMode_iff (hg : Clause.Clear g.clauses) (hs : s.getLast? ≠ some '\n') :
    ((g.mode? s).bind fun (m, rest) => (readClauses g.clauses rest).map fun ops => Parts.mk (some m) ops) = some p ↔
      ∃ w : Wording, w.Of g ∧ w.mode.isSome ∧ w.text = s ∧ w.parts = p := by
  constructor
  · intro h
    obtain ⟨⟨m, rest⟩, hm, h⟩ := Option.bind_eq_some_iff.mp h
    obtain ⟨ops, hops, rfl⟩ := Option.map_eq_some_iff.mp h
    obtain ⟨hmem, rfl⟩ := mode?_iff.mp hm
    have hrest : rest.getLast? ≠ some '\n' := by
      intro hlast
      rw [List.getLast?_append, hlast] at hs
      exact hs rfl
    obtain ⟨ps, hps, rfl, rfl⟩ := (readClauses_iff hg hrest).mp hops
    exact ⟨⟨some m, ps⟩, ⟨fun m' hm' => Option.some.inj hm' ▸ hmem, hps⟩, rfl, rfl, rfl⟩
  · rintro ⟨⟨mode, ps⟩, hw, hmode, rfl, rfl⟩
    obtain ⟨m, rfl⟩ := Option.isSome_iff_exists.mp hmode
    show ((g.mode? (m.word.toList ++ phrasesText ps)).bind _) = _
    rw [mode?_word (hw.mode m rfl), Option.bind_some]
    simp only [readClauses_phrases hg hw.phrases, Option.map_some]
    rfl

/-- Clauses alone are a command without a mode. -/
theorem withoutMode_iff (hg : Clause.Clear g.clauses) (hs : s.getLast? ≠ some '\n') :
    ((readClauses g.clauses s).map fun ops => Parts.mk none ops) = some p ↔
      ∃ w : Wording, w.Of g ∧ w.mode = none ∧ w.text = s ∧ w.parts = p := by
  constructor
  · intro h
    obtain ⟨ops, hops, rfl⟩ := Option.map_eq_some_iff.mp h
    obtain ⟨ps, hps, rfl, rfl⟩ := (readClauses_iff hg hs).mp hops
    exact ⟨⟨none, ps⟩, ⟨nofun, hps⟩, rfl, rfl, rfl⟩
  · rintro ⟨⟨mode, ps⟩, hw, rfl, rfl, rfl⟩
    show ((readClauses g.clauses (phrasesText ps)).map _) = _
    rw [readClauses_phrases hg hw.phrases]
    rfl

/-- After the word of a mode come clauses, or the word is a part of them. -/
theorem read?_word {m : Mode} (hm : m ∈ g.modes) (t : List Char) :
    g.read? (m.word.toList ++ t) =
      match readClauses g.clauses t with
      | some ops => some ⟨some m, ops⟩
      | none => (readClauses g.clauses (m.word.toList ++ t)).map fun ops => ⟨none, ops⟩ := by
  rw [Grammar.read?, mode?_word hm, Option.bind_some]
  dsimp only
  cases readClauses g.clauses t with
  | none => rfl
  | some ops => rfl

/-- **A command is read with a mode if it is worded with one**, and without a mode otherwise. -/
theorem read?_iff (hg : Clause.Clear g.clauses) (hs : s.getLast? ≠ some '\n') :
    g.read? s = some p ↔
      (∃ w : Wording, w.Of g ∧ w.mode.isSome ∧ w.text = s ∧ w.parts = p) ∨
        (¬∃ w : Wording, w.Of g ∧ w.mode.isSome ∧ w.text = s) ∧
          ∃ w : Wording, w.Of g ∧ w.mode = none ∧ w.text = s ∧ w.parts = p := by
  rw [← withoutMode_iff hg hs, Grammar.read?]
  dsimp only
  split
  · rename_i p' hp'
    rw [← hp', withMode_iff hg hs, or_iff_left]
    rintro ⟨hnone, -⟩
    obtain ⟨w, hw, hmode, htext, -⟩ := (withMode_iff hg hs).mp hp'
    exact hnone ⟨w, hw, hmode, htext⟩
  · rename_i hnone
    have hno : ¬∃ w : Wording, w.Of g ∧ w.mode.isSome ∧ w.text = s := by
      rintro ⟨w, hw, hmode, htext⟩
      have hread := (withMode_iff hg hs).mpr ⟨w, hw, hmode, htext, rfl⟩
      rw [hnone] at hread
      cases hread
    rw [or_iff_right fun ⟨w, hw, hmode, htext, _⟩ => hno ⟨w, hw, hmode, htext⟩, and_iff_right hno]

end

end Command

end RecordForge
