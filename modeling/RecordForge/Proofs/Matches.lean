import RecordForge.Proofs.Patterns

/-!
# What the pattern of a command matches

A list of texts can be matched in several ways: a blank before an item is a part of what separates it, or of the
item. The way that is tried first counts, and gives what is read. A clause that is matched is not left out again,
because what comes after it does not begin with its keyword. So the pattern of a kind comes to what its grammar
reads, and to what a command of it is worded as.

* `Closes`, `run_item`, `run_texts`: lists of texts up to the end.
* `run_clause`, `run_clauses`: clauses are matched where they are read, one after the other.
* `run_modes`: so is the mode.
* **`match?_pattern`**: the pattern of a kind matches what its grammar reads, with the same groups.
-/

namespace RecordForge

open Text

namespace Command

open Pattern

/-- What comes next is the end. -/
structure Closes (next : Next) : Prop where
  stops : ∀ gs t, isEnd t = false → next gs t = none
  ends : ∀ gs, (next gs []).isSome

section

variable {next : Next} {s : List Char}

/-! ## Lists of texts -/

/-- The pattern of an item of a list of texts. -/
abbrev item : Pattern := several (· ≠ ',')

/-- An item is matched up to the next comma, if going back does not help. -/
theorem run_item (next : Next) (h : ∀ c t, c ≠ ',' → next [] (c :: t) = none ∨ (next [] (t.dropWhile (· ≠ ','))).isSome)
    (s : List Char) :
    item.run next s = if s.takeWhile (· ≠ ',') = [] then none else next [] (s.dropWhile (· ≠ ',')) := by
  cases s with
  | nil => rfl
  | cons c t =>
    have hmany : (many (one (· ≠ ','))).run next t = next [] (t.dropWhile (· ≠ ',')) := by
      refine run_many_one (fun c t hc => h c t ?_) t
      simpa using hc
    by_cases hc : c = ','
    · simp [several, run, hc]
    · have hne : decide (c ≠ ',') = true := decide_eq_true hc
      rw [List.takeWhile_cons_of_pos (p := (· ≠ ',')) hne, List.dropWhile_cons_of_pos (p := (· ≠ ',')) hne,
        if_neg (List.cons_ne_nil _ _), item, several, run, run, if_pos hne]
      exact hmany

/-- Blanks before an item can be taken for a part of it. -/
theorem run_blanks_item (h : ∀ c t, c ≠ ',' → next [] (c :: t) = none ∨ (next [] (t.dropWhile (· ≠ ','))).isSome) :
    ∀ s, (seq .blanks item).run next s = item.run next s
  | [] => rfl
  | c :: t => by
    have ih : (seq .blanks item).run next t = item.run next t := run_blanks_item h t
    by_cases hc : isBlank c = true
    · have hcomma : decide (c ≠ ',') = true := by
        refine decide_eq_true ?_
        rintro rfl
        exact absurd hc (by decide)
      have hstep : (seq .blanks item).run next (c :: t) =
          ((seq .blanks item).run next t).or (item.run next (c :: t)) := by
        show ((one isBlank).run _ (c :: t)).or _ = _
        rw [run, if_pos hc]
        rfl
      rw [hstep, ih, run_item next h, run_item next h, List.takeWhile_cons_of_pos (p := (· ≠ ',')) hcomma,
        List.dropWhile_cons_of_pos (p := (· ≠ ',')) hcomma, if_neg (List.cons_ne_nil _ _)]
      split
      · exact Option.none_or
      · exact Option.or_self
    · show ((one isBlank).run _ (c :: t)).or _ = _
      rw [run, if_neg hc, Option.none_or]
      rfl

/-- Where an item is cut short, what follows it is no more of the list. -/
theorem runMany_item (h : Closes next) (fuel fuel' : Nat) (c : Char) (t : List Char) (hc : c ≠ ',') :
    runMany (nextItem item).run fuel next (c :: t) = none ∨
      (runMany (nextItem item).run fuel' next (t.dropWhile (· ≠ ','))).isSome := by
  have hne : ∀ d ∈ (c :: t).head?, d ≠ ',' := fun d hd => Option.some.inj hd ▸ hc
  rw [runMany_stop fun next => run_nextItem_ne item next hne]
  cases hend : isEnd (c :: t) with
  | false => exact Or.inl (h.stops [] _ hend)
  | true =>
    have hnil : t = [] := by
      simp only [isEnd, List.isEmpty_cons, Bool.false_or, beq_iff_eq] at hend
      exact (List.cons.inj hend).2
    subst hnil
    have hstop : runMany (nextItem item).run fuel' next [] = next [] [] :=
      runMany_stop (fun next => run_nextItem_ne item next (by simp)) fuel' next
    exact Or.inr (hstop ▸ h.ends [])

/-- A first piece that is not empty, and then further ones. -/
theorem ite_filledPieces (x : Option Groups) (s : List Char) :
    (if s.takeWhile (· ≠ ',') = [] then none
      else if ∀ p ∈ (pieces (s.dropWhile (· ≠ ','))).tail, p ≠ [] then x else none) =
      if FilledPieces s then x else none := by
  by_cases hfirst : s.takeWhile (· ≠ ',') = []
  · rw [if_pos hfirst, if_neg fun h => ((filledPieces_iff s).mp h).1 hfirst]
  · rw [if_neg hfirst]
    exact if_congr (by rw [filledPieces_iff, and_iff_right hfirst]) rfl rfl

/-- Further items are matched to the end, if none of them is empty. -/
theorem run_moreTexts (h : Closes next) : ∀ (fuel : Nat) (s : List Char), s.length ≤ fuel →
    (∀ c ∈ s.head?, c = ',') → runMany (nextItem item).run fuel next s =
      if ∀ p ∈ (pieces s).tail, p ≠ [] then next [] [] else none
  | fuel, [], _, _ => by
    rw [runMany_stop fun next => run_nextItem_ne item next (by simp)]
    rfl
  | fuel + 1, c :: t, hfuel, hs => by
    obtain rfl := hs c rfl
    have hcomma : next [] (',' :: t) = none := h.stops [] _ rfl
    have hitem := runMany_item h fuel fuel
    have hrun : (nextItem item).run (fun gs => runMany (nextItem item).run fuel fun hs => next (gs ++ hs)) (',' :: t) =
        if t.takeWhile (· ≠ ',') = [] then none
        else runMany (nextItem item).run fuel next (t.dropWhile (· ≠ ',')) :=
      (run_blanks_item hitem t).trans (run_item _ hitem t)
    have hlength : (t.dropWhile (· ≠ ',')).length ≤ fuel :=
      Nat.le_trans (List.dropWhile_sublist _).length_le (Nat.le_of_succ_le_succ hfuel)
    rw [runMany, hrun, hcomma, Option.or_none, run_moreTexts h fuel _ hlength (head?_afterPiece t),
      ite_filledPieces]
    rfl

/-- **A list of texts is matched to the end if none of its pieces is empty.** -/
theorem run_texts (h : Closes next) (s : List Char) :
    Operand.texts.pattern.run next s = if FilledPieces s then next [] [] else none := by
  rw [← ite_filledPieces, ← run_moreTexts h _ _ (Nat.le_refl _) (head?_afterPiece s)]
  exact run_item (fun gs t => runMany (nextItem item).run t.length (fun hs => next (gs ++ hs)) t)
    (fun c t hc => runMany_item h _ _ c t hc) s

/-- A list of texts is remembered with all its characters. -/
theorem run_group_texts (h : Closes next) (g : Group) (s : List Char) :
    (group g Operand.texts.pattern).run next s = if FilledPieces s then next [(g, s)] [] else none := by
  have hnext : Closes fun gs rest => next ((g, s.take (s.length - rest.length)) :: gs) rest :=
    ⟨fun gs t => h.stops _ t, fun gs => h.ends _⟩
  refine (run_texts hnext s).trans ?_
  rw [List.length_nil, Nat.sub_zero, List.take_length]

/-- **Blanks and a list of texts are matched where the list is read.** The blanks are left out of it, but for one
that its first item is. -/
theorem run_blanks_texts (h : Closes next) (g : Group) : ∀ s,
    (seq .blanks (group g Operand.texts.pattern)).run next s = (texts? s).bind fun x => next [(g, x)] []
  | [] => run_group_texts h g []
  | c :: t => by
    have ih := run_blanks_texts h g t
    have hgroup := run_group_texts h g (c :: t)
    have hstep : (seq .blanks (group g Operand.texts.pattern)).run next (c :: t) =
        (if isBlank c then (seq .blanks (group g Operand.texts.pattern)).run next t else none).or
          ((group g Operand.texts.pattern).run next (c :: t)) := rfl
    rw [hstep, ih, hgroup, texts?_eq, texts?_eq]
    by_cases hc : isBlank c = true
    · rw [if_pos hc]
      by_cases ht : FilledPieces t
      · have hct := filledPieces_blank hc ht
        rw [if_pos ht, if_pos hct, if_pos hct, itemsText_blank hc ht, Option.bind_some,
          Option.or_of_isSome (h.ends _)]
      · rw [if_neg ht, Option.bind_none, Option.none_or]
        split
        · rename_i hfilled
          rw [itemsText_single hc hfilled ht]
          rfl
        · rfl
    · rw [if_neg hc, Option.none_or]
      have hstart : StartsFilled (c :: t) := fun d hd => Option.some.inj hd ▸ (Bool.not_eq_true _).mp hc
      rw [itemsText_eq hstart]
      split <;> rfl

/-! ## Clauses -/

/-- What may come after an operand: the end after a list of texts, and no more of a number after a number. -/
structure Operand.Follows (o : Operand) (next : Next) : Prop where
  closes : o = .texts → Closes next
  refuses : o ≠ .texts → Refuses next ofNumber

/-- An operand is matched where it is read. -/
theorem run_operand {o : Operand} (h : o.Follows next) (g : Group) (s : List Char) :
    (seq .blanks (group g o.pattern)).run next s = (o.read? s).bind fun r => next [(g, r.1)] r.2 := by
  by_cases ho : o = .texts
  · subst ho
    rw [run_blanks_texts (h.closes rfl) g s, Operand.read?, Option.bind_map]
    rfl
  · exact run_blanks_number (h.refuses ho) ho g s

variable {c : Clause} {cs : List Clause}

/-- A word that begins with a letter is not found where a blank is. -/
theorem after?_blank {w : List Char} (hw : ∃ k ks, w = k :: ks ∧ isBlank k = false) {d : Char} (hd : isBlank d = true)
    (t : List Char) : after? w (d :: t) = none := by
  obtain ⟨k, ks, rfl, hk⟩ := hw
  rw [after?, if_neg]
  rintro rfl
  rw [hk] at hd
  cases hd

/-- **A clause is matched where it is read**, if it cannot be left out there. -/
theorem run_clause (hkeyword : ∃ k ks, c.keyword.toList = k :: ks ∧ isBlank k = false)
    (hnext : c.operand.Follows next)
    (hout : ∀ t, after? c.keyword.toList (trimLeft s) = some t → next [] s = none) :
    c.pattern.run next s =
      match c.read? s with
      | some (x, rest) => next [(.operand c.part, x)] rest
      | none => next [] s := by
  have hword (s : List Char) : (seq (.word c.keyword.toList) (.seq .blanks
      (.group (.operand c.part) c.operand.pattern))).run next s =
      ((after? c.keyword.toList s).bind c.operand.read?).bind fun r => next [(.operand c.part, r.1)] r.2 := by
    show ((after? c.keyword.toList s).bind _) = _
    rw [Option.bind_assoc]
    congr 1
    funext t
    exact run_operand hnext (.operand c.part) t
  have hblanks : Refuses (fun gs => (seq (.word c.keyword.toList) (.seq .blanks
      (.group (.operand c.part) c.operand.pattern))).run fun hs => next (gs ++ hs)) isBlank := by
    intro gs d t hd
    show ((after? c.keyword.toList (d :: t)).bind _) = none
    rw [after?_blank hkeyword hd]
    rfl
  have hfirst : (seq .blanks (seq (.word c.keyword.toList) (.seq .blanks
      (.group (.operand c.part) c.operand.pattern)))).run next s =
      (c.read? s).bind fun r => next [(.operand c.part, r.1)] r.2 :=
    (run_many_one_of_refuses hblanks s).trans (hword (trimLeft s))
  rw [Clause.pattern, run_optional, hfirst]
  cases hread : c.read? s with
  | none => exact Option.none_or
  | some r =>
    obtain ⟨t, ht, -⟩ := Option.bind_eq_some_iff.mp hread
    rw [hout t ht, Option.or_none]
    rfl

/-- No clauses are read where no keyword of them is. -/
theorem readClauses_eq_none : ∀ {cs : List Clause}, (∀ c ∈ cs, after? c.keyword.toList (trimLeft s) = none) →
    isEnd s = false → readClauses cs s = none
  | [], _, hend => by
    rw [readClauses, hend]
    rfl
  | c :: cs, hcs, hend => by
    obtain ⟨hc, hcs⟩ := List.forall_mem_cons.mp hcs
    have hread : c.read? s = none := by rw [Clause.read?, hc, Option.bind_none]
    rw [readClauses, hread]
    exact readClauses_eq_none hcs hend

theorem after?_ne {k d : Char} (h : k ≠ d) (ks t : List Char) : after? (k :: ks) (d :: t) = none := by
  simp [after?, h]

/-- After an operand of the first clause stands nothing that the further clauses read, but no more of it. -/
theorem follows_clauses (hcs : Clause.Clear (c :: cs)) (f : Groups → List (Part × List Char) → Groups) :
    c.operand.Follows fun gs t => (readClauses cs t).map (f gs) := by
  constructor
  · intro ho
    have hlast : cs = [] := by
      cases cs with
      | nil => rfl
      | cons d cs => exact absurd ho ((List.pairwise_cons.mp hcs.last).1 d List.mem_cons_self)
    subst hlast
    constructor
    · intro gs t hend
      simp [readClauses, hend]
    · intro gs
      rfl
  · intro ho gs d t hd
    have hends : ¬(isDigit d = false ∧ d ≠ '.' ∧ d ≠ ',') := by
      simp only [ofNumber, Bool.or_eq_true, beq_iff_eq] at hd
      rintro ⟨hdigit, hpoint, hcomma⟩
      simp [hdigit, hpoint, hcomma] at hd
    have hblank : isBlank d = false := by
      simp only [ofNumber, Bool.or_eq_true, beq_iff_eq] at hd
      rcases hd with (hd | rfl) | rfl
      · exact isBlank_of_digit hd
      · decide
      · decide
    have htrim : trimLeft (d :: t) = d :: t := trimLeft_eq fun a ha => Option.some.inj ha ▸ hblank
    have hnone : readClauses cs (d :: t) = none := by
      refine readClauses_eq_none (fun a ha => ?_) ?_
      · obtain ⟨k, ks, hk, -⟩ := hcs.tail.apart.filled a ha
        rw [htrim, hk]
        refine after?_ne ?_ ks t
        rintro rfl
        exact hends (hcs.tail.letters a ha k (by rw [hk]; rfl))
      · cases hend : isEnd (d :: t) with
        | false => rfl
        | true =>
          simp only [isEnd, List.isEmpty_cons, Bool.false_or, beq_iff_eq] at hend
          obtain ⟨rfl, -⟩ := List.cons.inj hend
          exact absurd hblank (by decide)
    dsimp only
    rw [hnone]
    rfl

/-- Where the keyword of the first clause is, the further clauses read nothing. -/
theorem readClauses_other (hcs : Clause.Clear (c :: cs)) {t : List Char}
    (h : after? c.keyword.toList (trimLeft s) = some t) : readClauses cs s = none := by
  obtain ⟨k, ks, hk, hblank⟩ := hcs.apart.filled c List.mem_cons_self
  rw [after?_eq_some_iff, hk, List.cons_append] at h
  refine readClauses_eq_none (fun a ha => ?_) ?_
  · obtain ⟨k', ks', hk', -⟩ := hcs.tail.apart.filled a ha
    rw [h, hk']
    refine after?_ne ?_ ks' _
    rintro rfl
    have hhead : a.keyword.toList.head? = c.keyword.toList.head? := by
      rw [hk, hk', List.head?_cons, List.head?_cons]
    exact (List.nodup_cons.mp hcs.apart.nodup).1 (List.mem_map.mpr ⟨a, ha, hhead⟩)
  · cases hend : isEnd s with
    | false => rfl
    | true =>
      rw [isEnd, Bool.or_eq_true, List.isEmpty_iff, beq_iff_eq] at hend
      rcases hend with rfl | rfl <;> cases h

/-- **Clauses are matched where they are read**, one after the other. -/
theorem run_clauses : ∀ {cs : List Clause}, Clause.Clear cs → ∀ (pre : Groups) (s : List Char),
    (clausesPattern cs).run (fun gs _ => some (pre ++ gs)) s =
      (readClauses cs s).map fun ops => pre ++ ops.map operandGroup
  | [], _, pre, s => by
    show (if isEnd s then some (pre ++ []) else none) = _
    rw [readClauses]
    split <;> rfl
  | c :: cs, hcs, pre, s => by
    have hrest : (fun gs : Groups => (clausesPattern cs).run fun hs _ => some (pre ++ (gs ++ hs))) =
        fun gs s => (readClauses cs s).map fun ops => pre ++ gs ++ ops.map operandGroup := by
      funext gs s
      rw [← run_clauses hcs.tail (pre ++ gs) s]
      simp only [List.append_assoc]
    have hout (t : List Char) (h : after? c.keyword.toList (trimLeft s) = some t) :
        ((readClauses cs s).map fun ops => pre ++ [] ++ ops.map operandGroup) = none := by
      rw [readClauses_other hcs h]
      rfl
    show c.pattern.run (fun gs : Groups => (clausesPattern cs).run fun hs _ => some (pre ++ (gs ++ hs))) s = _
    rw [hrest, run_clause (hcs.apart.filled c List.mem_cons_self) (follows_clauses hcs _) hout, readClauses]
    cases c.read? s with
    | none => simp only [List.append_nil]
    | some r => simp [Function.comp_def, operandGroup]

/-! ## Commands -/

variable {g : Grammar}

/-- One of some words that begin with different letters. -/
theorem run_oneOf_word (next : Next) (m : Mode) (rest : List Char) : ∀ modes : List Mode,
    (oneOf (modes.map fun m => m.word.toList)).run next (m.word.toList ++ rest) =
      if m ∈ modes then next [] rest else none
  | [] => by
    cases m <;> rfl
  | m' :: modes => by
    have ih := run_oneOf_word next m rest modes
    show ((after? m'.word.toList (m.word.toList ++ rest)).bind _).or _ = _
    rw [ih, after?_word]
    by_cases hm : m' = m
    · subst hm
      by_cases hmem : m' ∈ modes
      · simp [hmem]
      · simp [hmem]
    · simp [hm, Ne.symm hm]

/-- The mode is matched where it is read. -/
theorem run_modes (next : Next) (s : List Char) : ∀ modes : List Mode,
    (oneOf (modes.map fun m => m.word.toList)).run next s =
      (modes.findSome? fun m => (after? m.word.toList s).map fun rest => (m, rest)).bind fun r => next [] r.2
  | [] => by
    cases s <;> rfl
  | m :: modes => by
    have ih := run_modes next s modes
    show ((after? m.word.toList s).bind _).or _ = _
    rw [List.findSome?_cons, ih]
    cases hafter : after? m.word.toList s with
    | none => rfl
    | some rest =>
      have hmore := run_oneOf_word next m rest modes
      rw [← after?_eq_some_iff.mp hafter, ih] at hmore
      rw [hmore]
      show (next [] rest).or _ = next [] rest
      split
      · exact Option.or_self
      · exact Option.or_none

theorem run_group_mode (g : Grammar) (next : Next) (s : List Char) :
    (group .mode (oneOf (g.modes.map fun m => m.word.toList))).run next s =
      (g.mode? s).bind fun r => next [(.mode, r.1.word.toList)] r.2 := by
  refine (run_modes _ s g.modes).trans ?_
  show (g.mode? s).bind _ = _
  cases hmode : g.mode? s with
  | none => rfl
  | some r =>
    obtain ⟨m, rest⟩ := r
    obtain ⟨-, rfl⟩ := mode?_iff.mp hmode
    have htake : (m.word.toList ++ rest).take ((m.word.toList ++ rest).length - rest.length) = m.word.toList := by
      simp
    rw [Option.bind_some, Option.bind_some, htake]

/-- **The pattern of a kind matches what its grammar reads**, with the same groups. -/
theorem match?_pattern (hg : Clause.Clear g.clauses) (s : List Char) :
    g.pattern.match? s = (g.read? s).map Parts.groups := by
  have hclauses : (fun gs : Groups => (clausesPattern g.clauses).run fun hs _ => some (gs ++ hs)) =
      fun gs s => (readClauses g.clauses s).map fun ops => gs ++ ops.map operandGroup := by
    funext gs s
    exact run_clauses hg gs s
  show (Pattern.optional _).run (fun gs : Groups => (clausesPattern g.clauses).run fun hs _ => some (gs ++ hs)) s = _
  have hmode : ((g.mode? s).bind fun r =>
      (readClauses g.clauses r.2).map fun ops => [(Group.mode, r.1.word.toList)] ++ ops.map operandGroup) =
      ((g.mode? s).bind fun r =>
        (readClauses g.clauses r.2).map fun ops => Parts.mk (some r.1) ops).map Parts.groups := by
    rw [Option.map_bind]
    congr 1
    funext r
    rw [Function.comp_apply, Option.map_map]
    rfl
  rw [hclauses, run_optional, run_group_mode, hmode, Grammar.read?]
  dsimp only
  split
  · rename_i p hp
    rw [hp]
    rfl
  · rename_i hnone
    rw [hnone, Option.map_none, Option.none_or, Option.map_map]
    rfl

/-! ## Commands of numbers -/

/-- The word of a mode is no clause, and begins none. -/
def Grammar.Plain (g : Grammar) : Prop := ∀ m ∈ g.modes, ∀ t, readClauses g.clauses (m.word.toList ++ t) = none

/-- A command with a mode cannot be worded without one. -/
theorem Grammar.Plain.mode_eq_none (hplain : g.Plain) (hg : Clause.Clear g.clauses) {w w' : Wording} (hw : w.Of g)
    (hw' : w'.Of g) (h : w.text = w'.text) (hmode : w.mode = none) : w'.mode = none := by
  obtain ⟨mode, ps⟩ := w
  obtain ⟨mode', qs⟩ := w'
  obtain rfl : mode = none := hmode
  cases mode' with
  | none => rfl
  | some m =>
    have hread := readClauses_phrases hg hw.phrases
    have htext : phrasesText ps = m.word.toList ++ phrasesText qs := h
    rw [htext, hplain m (hw'.mode m rfl)] at hread
    cases hread

theorem plain_of_number {kind : Kind} (hg : grammar? kind = some g)
    (hkind : kind.isInteger = true ∨ kind.isDecimal = true) : g.Plain := by
  have hinteger : integerGrammar.Plain := by
    intro m hm t
    cases m with
    | gauss => exact absurd hm (by decide)
    | _ => rfl
  have hdecimal : decimalGrammar.Plain := by
    intro m hm t
    cases m with
    | incr | date => exact absurd hm (by decide)
    | _ => rfl
  cases kind with
  | int | long =>
    obtain rfl := Option.some.inj hg
    exact hinteger
  | float | double =>
    obtain rfl := Option.some.inj hg
    exact hdecimal
  | _ => simp [Kind.isInteger, Kind.isDecimal] at hkind

/-- The groups of a match are the parts of what is read. -/
theorem match?_eq_some_iff (hg : Clause.Clear g.clauses) {gs : Groups} :
    g.pattern.match? s = some gs ↔ ∃ p, g.read? s = some p ∧ p.groups = gs := by
  rw [match?_pattern hg, Option.map_eq_some_iff]

/-- **The commands of numbers are exactly what they are worded as**, and each of them is worded in one way. -/
theorem number_command_worded {kind : Kind} (hg : grammar? kind = some g)
    (hkind : kind.isInteger = true ∨ kind.isDecimal = true) (hs : s.getLast? ≠ some '\n') :
    (∀ gs, g.pattern.match? s = some gs ↔ ∃ w : Wording, w.Of g ∧ w.text = s ∧ w.parts.groups = gs) ∧
      (∀ p, g.read? s = some p ↔ ∃ w : Wording, w.Of g ∧ w.text = s ∧ w.parts = p) ∧
      ∀ w w' : Wording, w.Of g → w'.Of g → w.text = s → w'.text = s → w = w' := by
  have hclear := clear_clauses hg
  have hplain := plain_of_number hg hkind
  have hread (p : Parts) : g.read? s = some p ↔ ∃ w : Wording, w.Of g ∧ w.text = s ∧ w.parts = p := by
    rw [read?_iff hclear hs]
    constructor
    · rintro (⟨w, hw, -, htext, hparts⟩ | ⟨-, w, hw, -, htext, hparts⟩) <;> exact ⟨w, hw, htext, hparts⟩
    · rintro ⟨w, hw, htext, hparts⟩
      cases hmode : w.mode with
      | some m => exact Or.inl ⟨w, hw, by rw [hmode]; rfl, htext, hparts⟩
      | none =>
        refine Or.inr ⟨?_, w, hw, hmode, htext, hparts⟩
        rintro ⟨w', hw', hmode', htext'⟩
        rw [hplain.mode_eq_none hclear hw hw' (htext.trans htext'.symm) hmode] at hmode'
        cases hmode'
  refine ⟨fun gs => ?_, hread, fun w w' hw hw' htext htext' => ?_⟩
  · rw [match?_eq_some_iff hclear]
    constructor
    · rintro ⟨p, hp, rfl⟩
      obtain ⟨w, hw, htext, rfl⟩ := (hread p).mp hp
      exact ⟨w, hw, htext, rfl⟩
    · rintro ⟨w, hw, htext, rfl⟩
      exact ⟨w.parts, (hread w.parts).mpr ⟨w, hw, htext, rfl⟩, rfl⟩
  · have hsame := htext.trans htext'.symm
    exact Wording.unique hclear hw hw' hsame
      ⟨hplain.mode_eq_none hclear hw hw' hsame, hplain.mode_eq_none hclear hw' hw hsame.symm⟩

/-- `incrfrom-5to 7 in1, 2` begins with the letters of a keyword and has no blank where one may be left out. -/
theorem number_command_worded_incr : ∃ w : Wording, w.Of integerGrammar ∧ w.text = "incrfrom-5to 7 in1, 2".toList ∧
    w.parts = ⟨some .incr, [(.lower, "-5".toList), (.upper, ['7']), (.items, "1, 2".toList)]⟩ ∧
    ∀ w' : Wording, w'.Of integerGrammar → w'.text = "incrfrom-5to 7 in1, 2".toList → w' = w := by
  obtain ⟨-, hread, hunique⟩ := number_command_worded (s := "incrfrom-5to 7 in1, 2".toList)
    (rfl : grammar? .int = some integerGrammar) (Or.inl rfl) (by decide)
  obtain ⟨w, hw, htext, hparts⟩ := (hread _).mp rfl
  exact ⟨w, hw, htext, hparts, fun w' hw' htext' => hunique w' w hw' hw htext' htext⟩

/-! ## Commands of texts -/

/-- A phrase with items is a list of texts. -/
theorem Phrases.items {kind : Kind} (hg : grammar? kind = some g) (hkind : kind = .string ∨ kind = .enum)
    {ps : List Phrase} (hps : Phrases g.clauses ps) {p : Phrase} (hp : p ∈ ps) (hpart : p.clause.part = .items) :
    p.clause.operand = .texts := by
  have hclauses : ∀ c ∈ g.clauses, c.part = .items → c.operand = .texts := by
    rcases hkind with rfl | rfl
    all_goals
      obtain rfl := Option.some.inj hg
      decide
  exact hclauses p.clause (hps.clauses.subset (List.mem_map_of_mem hp)) hpart

/-- **The commands of texts are what they are worded as, and with a mode if they can be.** With a mode a text is
worded in one way, and so it is without. The items are what follows the keyword, where no piece may be empty,
without the blanks before it; of blanks that are all of the first piece the last one stays. -/
theorem text_command_worded {kind : Kind} (hg : grammar? kind = some g) (hkind : kind = .string ∨ kind = .enum)
    (hs : s.getLast? ≠ some '\n') :
    (∀ gs, g.pattern.match? s = some gs ↔
      (∃ w : Wording, w.Of g ∧ w.mode.isSome ∧ w.text = s ∧ w.parts.groups = gs) ∨
        (¬∃ w : Wording, w.Of g ∧ w.mode.isSome ∧ w.text = s) ∧
          ∃ w : Wording, w.Of g ∧ w.mode = none ∧ w.text = s ∧ w.parts.groups = gs) ∧
      (∀ p, g.read? s = some p ↔
        (∃ w : Wording, w.Of g ∧ w.mode.isSome ∧ w.text = s ∧ w.parts = p) ∨
          (¬∃ w : Wording, w.Of g ∧ w.mode.isSome ∧ w.text = s) ∧
            ∃ w : Wording, w.Of g ∧ w.mode = none ∧ w.text = s ∧ w.parts = p) ∧
      (∀ w w' : Wording, w.Of g → w'.Of g → w.text = s → w'.text = s → (w.mode = none ↔ w'.mode = none) → w = w') ∧
      ∀ w : Wording, w.Of g → ∀ p ∈ w.phrases, p.clause.part = .items →
        FilledPieces p.after ∧ p.operand.2 = itemsText p.after := by
  have hclear := clear_clauses hg
  refine ⟨fun gs => ?_, fun p => read?_iff hclear hs, fun w w' hw hw' htext htext' hmode =>
    Wording.unique hclear hw hw' (htext.trans htext'.symm) hmode, fun w hw p hp hpart => ?_⟩
  · rw [match?_eq_some_iff hclear]
    constructor
    · rintro ⟨p, hp, rfl⟩
      rcases (read?_iff hclear hs).mp hp with ⟨w, hw, hmode, htext, rfl⟩ | ⟨hnone, w, hw, hmode, htext, rfl⟩
      · exact Or.inl ⟨w, hw, hmode, htext, rfl⟩
      · exact Or.inr ⟨hnone, w, hw, hmode, htext, rfl⟩
    · rintro (⟨w, hw, hmode, htext, rfl⟩ | ⟨hnone, w, hw, hmode, htext, rfl⟩)
      · exact ⟨w.parts, (read?_iff hclear hs).mpr (Or.inl ⟨w, hw, hmode, htext, rfl⟩), rfl⟩
      · exact ⟨w.parts, (read?_iff hclear hs).mpr (Or.inr ⟨hnone, w, hw, hmode, htext, rfl⟩), rfl⟩
  · have htexts := hw.phrases.items hg hkind hp hpart
    have htakes := (hw.phrases.proper p hp).takes
    rw [Phrase.operand, htexts]
    rw [htexts] at htakes
    exact ⟨htakes, rfl⟩

/-- `incr in  ,a` has a mode and a blank item; `incra` is the item `cra` after the keyword `in`. -/
theorem text_command_worded_incr :
    (∃ w : Wording, w.Of stringGrammar ∧ w.text = "incr in  ,a".toList ∧
      w.parts = ⟨some .incr, [(.items, " ,a".toList)]⟩) ∧
      (∃ w : Wording, w.Of stringGrammar ∧ w.text = "incra".toList ∧ w.parts = ⟨none, [(.items, "cra".toList)]⟩) ∧
      ¬∃ w : Wording, w.Of stringGrammar ∧ w.mode.isSome ∧ w.text = "incra".toList := by
  obtain ⟨-, hmode, -⟩ := text_command_worded (s := "incr in  ,a".toList)
    (rfl : grammar? .string = some stringGrammar) (Or.inl rfl) (by decide)
  obtain ⟨-, hbare, -⟩ := text_command_worded (s := "incra".toList)
    (rfl : grammar? .string = some stringGrammar) (Or.inl rfl) (by decide)
  refine ⟨?_, ?_⟩
  · rcases (hmode ⟨some .incr, [(.items, " ,a".toList)]⟩).mp rfl with ⟨w, hw, -, htext, hparts⟩ | ⟨-, w, hw, -, h⟩
    · exact ⟨w, hw, htext, hparts⟩
    · exact ⟨w, hw, h⟩
  · rcases (hbare ⟨none, [(.items, "cra".toList)]⟩).mp rfl with ⟨w, -, hsome, -, hparts⟩ | ⟨hnone, w, hw, -, h⟩
    · rw [show w.mode = none from congrArg Parts.mode hparts] at hsome
      cases hsome
    · exact ⟨⟨w, hw, h⟩, hnone⟩

end

end Command

end RecordForge
