import RecordForge.Proofs.Commands
import RecordForge.Proofs.Wordings

/-!
# Strategies are read back from the commands that say them

A strategy is entered as a command: the word of its mode, and after it either the bounds or the items. A
dialog that is given this command as an answer accepts it, and the strategy that it takes from it is the one
that was entered.

* `read?_command`: the parts of a command that is entered.
* `integerOperand_numeral`, `integerItems_numerals`, `checkDates_stamps`: what the checks make of the operands.
* `Says`: clauses that say a strategy; `askStrategy_command`: a dialog accepts a command of such clauses.
* `Entered`: which command is entered for which strategy of a field.
* `says_span`, `says_numbers`, `says_lengths`, `says_texts`: its clauses say this strategy.
* **`entered_read_back`**: every strategy is read back from its command.
-/

namespace RecordForge

open Calendar Command Dialog Text

namespace Command

/-! ## The parts of a command -/

section Parts

variable {g : Grammar} {m : Mode} {es : List (Clause × List Char)}

/-- What is read of a clause that is entered is what its operand takes. -/
theorem ReadsEach.takes : ∀ {es : List (Clause × List Char)}, ReadsEach es →
    ∀ e ∈ es, e.1.operand.Takes (' ' :: e.2) ∧ e.1.operand.within (' ' :: e.2) = e.2
  | [], _ => fun _ he => absurd he List.not_mem_nil
  | (c, x) :: es, .cons hx h => by
    obtain ⟨t, ht, htakes, hwithin, -⟩ := Operand.of_read? hx
    obtain rfl : ' ' :: x = t := List.append_cancel_right ht
    exact List.forall_mem_cons.mpr ⟨⟨htakes, hwithin⟩, h.takes⟩

/-- An operand is read where it is entered if it takes what stands there. -/
theorem ReadsEach.entered {c : Clause} {x : List Char} (htakes : c.operand.Takes (' ' :: x))
    (hwithin : c.operand.within (' ' :: x) = x) (hbefore : c.operand.Before (enteredAll es)) (h : ReadsEach es) :
    ReadsEach ((c, x) :: es) := by
  have hread := Operand.read?_append htakes hbefore
  rw [hwithin] at hread
  exact .cons hread h

/-- A clause as it is entered is a phrase with one blank before its keyword and one after it. -/
def enteredPhrase (e : Clause × List Char) : Phrase := ⟨e.1, [' '], ' ' :: e.2⟩

theorem phrasesText_entered (es : List (Clause × List Char)) :
    phrasesText (es.map enteredPhrase) = enteredAll es := List.flatMap_map _ _ es

/-- A command consists of the mode and the clauses that are entered. -/
theorem read?_command (hm : m ∈ g.modes) (hg : Clause.Clear g.clauses)
    (hes : (es.map Prod.fst).Sublist g.clauses) (hread : ReadsEach es) :
    g.read? (m.word.toList ++ enteredAll es) = some ⟨some m, es.map fun e => (e.1.part, e.2)⟩ := by
  have hphrases : Phrases g.clauses (es.map enteredPhrase) := by
    constructor
    · rw [List.map_map]
      exact hes
    · intro p hp
      obtain ⟨e, he, rfl⟩ := List.mem_map.mp hp
      exact ⟨List.forall_mem_singleton.mpr rfl, (hread.takes e he).1⟩
  have hoperands : (es.map enteredPhrase).map Phrase.operand = es.map fun e => (e.1.part, e.2) := by
    rw [List.map_map, List.map_inj_left]
    intro e he
    exact congrArg _ (hread.takes e he).2
  rw [read?_word hm, ← phrasesText_entered, readClauses_phrases hg hphrases, hoperands]

/-- The modes of a kind are those of its grammar. -/
theorem modes_eq {kind : Kind} (h : grammar? kind = some g) : g.modes = Strategy.modesOf kind := by
  cases kind with
  | int | long | float | double | string | enum =>
    obtain rfl := Option.some.inj h
    rfl
  | _ => cases h

end Parts

/-! ## What the operands say -/

/-- What is written of a 64-bit word is read as an operand. -/
theorem integerOperand_numeral {keyword : String} {low high n : Int} (hlong : Word.IsLong n)
    (hlow : low ≤ n) (hhigh : n ≤ high) : integerOperand keyword low high (numeral n) = .ok n := by
  rw [integerOperand, within?, integer?_of_isLong hlong]
  simp only [if_pos (And.intro hlow hhigh)]

theorem integerOr_numeral {default low high n : Int} {keyword : String} (hlong : Word.IsLong n)
    (hlow : low ≤ n) (hhigh : n ≤ high) :
    integerOr default keyword low high (some (numeral n)) = .ok n := by
  rw [integerOr, integerOperand_numeral hlong hlow hhigh]

/-- What is written of a list of 64-bit words is read as a set. -/
theorem integerItems_numerals {low high : Int} : ∀ {ns : List Int},
    (∀ n ∈ ns, Word.IsLong n ∧ low ≤ n ∧ n ≤ high) →
      integerItems low high (ns.map numeral) = .ok (ns.map .int)
  | [], _ => rfl
  | n :: ns, h => by
    obtain ⟨⟨hlong, hlow, hhigh⟩, hrest⟩ := List.forall_mem_cons.mp h
    rw [List.map_cons, integerItems, integerOperand_numeral hlong hlow hhigh]
    simp only [bind, Except.bind, integerItems_numerals hrest]
    rfl

end Command

/-- An integer is written as the `YYYYMMDD` of a day. -/
def Calendar.IsStamp (n : Int) : Prop := ∃ a : Date, n = a.toStamp ∧ 1000 ≤ a.year

namespace Command

/-- A span that reaches from one day to a later one is let pass. -/
theorem checkDates_stamps {p : Parts} {lower upper : Int} (hp : (p.operand? .lower).isSome)
    (hp' : (p.operand? .upper).isSome) (hlower : IsStamp lower) (hupper : IsStamp upper)
    (hlt : lower < upper) : checkDates p lower upper = .ok () := by
  obtain ⟨a, rfl, ha⟩ := hlower
  obtain ⟨b, rfl, hb⟩ := hupper
  have hdays := number_lt_of_toStamp_lt hlt
  have hgiven : ¬((p.operand? .lower).isNone || (p.operand? .upper).isNone) = true := by
    simp [Option.isNone_eq_false_iff.mpr hp, Option.isNone_eq_false_iff.mpr hp']
  have hproper : ¬a.daysTo b ≤ 0 := by
    rw [Date.daysTo]
    omega
  rw [checkDates, if_neg hgiven, readStamp_eq_day_iff.mpr ⟨rfl, ha⟩, readStamp_eq_day_iff.mpr ⟨rfl, hb⟩]
  simp only [if_neg hproper]

end Command

/-! ## Commands as answers -/

namespace Dialog

variable {d : Descriptor} {m : Mode} {es : List (Clause × List Char)} {line : String} {strategy : Strategy}

/-- A command begins with a letter. -/
theorem startsFilled_command (m : Mode) (t : List Char) : StartsFilled (m.word.toList ++ t) := by
  intro c hc
  cases m with
  | rand | incr | date | gauss =>
    obtain rfl := Option.some.inj hc
    decide

/-- No command asks for help. -/
theorem ne_help {t : List Char} (h : line.toList = m.word.toList ++ t) : line ≠ "help" := by
  rintro rfl
  cases m with
  | rand | incr | date | gauss => exact absurd (List.cons.inj h).1 (by decide)

/-- Clauses that, entered after the word of a mode, say a strategy of a field. -/
structure Says (d : Descriptor) (m : Mode) (es : List (Clause × List Char)) (strategy : Strategy) : Prop where
  mode : m ∈ Strategy.modesOf d.kind
  /-- They are clauses of the field's commands, in the same order. -/
  clauses : ∃ g, grammar? d.kind = some g ∧ (es.map Prod.fst).Sublist g.clauses
  reads : ReadsEach es
  /-- There is one, and the last one does not end with a blank. -/
  ends : ∃ e ∈ es.getLast?, e.2 ≠ [] ∧ EndsFilled e.2
  strategy : strategyOf d ⟨some m, es.map fun e => (e.1.part, e.2)⟩ = .ok strategy

/-- **A dialog accepts a command whose clauses say a strategy**, without another question. -/
theorem askStrategy_command (h : Says d m es strategy) (hline : line.toList = m.word.toList ++ enteredAll es)
    (name : String) (rest : List String) (events : List Event) :
    (askStrategy name d).run ⟨line :: rest, events⟩ =
      (.ok strategy, ⟨rest, events ++ [.prompt (strategyPrompt d.kind name)]⟩) := by
  obtain ⟨g, hg, hes⟩ := h.clauses
  have htrimmed : trimmed line = line := by
    rw [trimmed, hline, trim_eq (startsFilled_command m _) (endsFilled_enteredAll h.ends _), ← hline,
      String.ofList_toList]
  have hparts := read?_command (modes_eq hg ▸ h.mode) (clear_clauses hg) hes h.reads
  have haccept : judgeStrategy g name d (trimmed line) = .accept strategy := by
    rw [htrimmed, judgeStrategy, if_neg (ne_help hline), readStrategy, hline, hparts]
    simp only [h.strategy]
  rw [askStrategy, hg]
  show askFrom _ _ (line :: rest) events = _
  rw [askFrom, haccept]

end Dialog

/-! ## Commands of strategies -/

/-- A list as it is entered. -/
def listed (xs : List String) : String := ", ".intercalate xs

theorem toList_listed (xs : List String) : (listed xs).toList = joined (xs.map String.toList) := by
  rw [listed, String.toList_intercalate, joined_eq_intercalate]
  rfl

/-- A text that can be an item of a list: it is not empty, has no comma and does not begin with a blank. -/
structure IsItem (x : String) : Prop where
  ne_empty : x ≠ ""
  no_comma : ',' ∉ x.toList
  starts : StartsFilled x.toList

instance (x : String) : Decidable (IsItem x) :=
  decidable_of_iff (x ≠ "" ∧ ',' ∉ x.toList ∧ StartsFilled x.toList)
    ⟨fun ⟨hne, hcomma, hstart⟩ => ⟨hne, hcomma, hstart⟩, fun h => ⟨h.ne_empty, h.no_comma, h.starts⟩⟩

/-- Which command is entered for which strategy of a field. -/
inductive Entered (d : Descriptor) : Strategy → String → Prop where
  /-- A span of integers, with a factor; in the mode `date` a span of days. -/
  | span {mode : Mode} {lower upper scale : Int} : d.kind.isInteger = true →
    mode ∈ Strategy.modesOf d.kind → Word.IsLong lower → Word.IsLong upper → lower < upper →
    1 ≤ scale → scale ≤ Word.maxInt → (mode = .date → IsStamp lower ∧ IsStamp upper) →
    Entered d { mode, bounds := .integers lower upper, scale }
      s!"{mode.word} from {Decimal.integer lower} to {Decimal.integer upper} scale {Decimal.integer scale}"
  /-- A set of integers. -/
  | numbers {mode : Mode} {ns : List Int} : d.kind.isInteger = true →
    mode ∈ Strategy.modesOf d.kind → ns ≠ [] →
    (∀ n ∈ ns, (range d.kind).1 ≤ n ∧ n ≤ (range d.kind).2) →
    Entered d { mode, items := some (ns.map .int) }
      s!"{mode.word} in {listed (ns.map Decimal.integer)}"
  /-- A span of lengths. -/
  | lengths {mode : Mode} {lower upper : Int} : d.kind = .string →
    mode ∈ Strategy.modesOf d.kind → 0 ≤ lower → lower < upper → upper ≤ Word.maxInt →
    Entered d { mode, bounds := .integers lower upper }
      s!"{mode.word} from {Decimal.integer lower} to {Decimal.integer upper}"
  /-- A set of texts, or of symbols; the last one does not end with a blank. -/
  | texts {mode : Mode} {xs : List String} : d.kind = .string ∨ d.kind = .enum ∧ (∀ x ∈ xs, x ∈ d.symbols) →
    mode ∈ Strategy.modesOf d.kind → xs ≠ [] → (∀ x ∈ xs, IsItem x) →
    (∀ x ∈ xs.getLast?, EndsFilled x.toList) →
    Entered d { mode, items := some (xs.map .text) } s!"{mode.word} in {listed xs}"

/-- The integers of a kind are 64-bit words. -/
theorem range_least (kind : Kind) : Word.minLong ≤ (range kind).1 := by
  unfold range
  split <;> decide

section

variable {mode : Mode} {lower upper scale : Int}

/-- The texts of the integers of a list. -/
theorem map_toList_integer (ns : List Int) : (ns.map Decimal.integer).map String.toList = ns.map numeral :=
  List.map_map

/-- The strategy of a span of integers. -/
theorem integerStrategy_span {kind : Kind} {p : Parts} (hmode : p.mode = some mode)
    (hitems : p.operand? .items = none) (hfrom : p.operand? .lower = some (numeral lower))
    (hto : p.operand? .upper = some (numeral upper)) (hby : p.operand? .scale = some (numeral scale))
    (hlower : Word.IsLong lower) (hupper : Word.IsLong upper) (hlt : lower < upper) (hscale : 1 ≤ scale)
    (hscale' : scale ≤ Word.maxInt) (hdates : mode = .date → IsStamp lower ∧ IsStamp upper) :
    integerStrategy kind p = .ok { mode, bounds := .integers lower upper, scale } := by
  have hlong : Word.IsLong scale := by
    simp only [Word.IsLong, Word.minLong, Word.maxLong, Word.maxInt] at *
    omega
  have hleast : Word.minInt ≤ scale := by
    simp only [Word.minInt]
    omega
  have hproper : ¬upper ≤ lower := by omega
  have hpositive : ¬scale = 0 := by omega
  unfold integerStrategy
  simp only [hmode, hitems, hfrom, hto, hby, Option.getD_some, integerOr_numeral hlower hlower.1 hlower.2,
    integerOr_numeral hupper hupper.1 hupper.2, integerOr_numeral hlong hleast hscale']
  simp only [bind, Except.bind, if_neg hproper, if_neg hpositive]
  by_cases hdate : mode = .date
  · obtain ⟨ha, hb⟩ := hdates hdate
    have hchecked : checkDates p lower upper = .ok () := by
      apply checkDates_stamps _ _ ha hb hlt
      · rw [hfrom]
        rfl
      · rw [hto]
        rfl
    simp only [if_pos hdate, hchecked]
    rfl
  · simp only [if_neg hdate]
    rfl

/-- The strategy of a span of lengths. -/
theorem stringStrategy_span {p : Parts} (hmode : p.mode = some mode) (hitems : p.operand? .items = none)
    (hfrom : p.operand? .lower = some (numeral lower)) (hto : p.operand? .upper = some (numeral upper))
    (hnonneg : 0 ≤ lower) (hlt : lower < upper) (hgreatest : upper ≤ Word.maxInt) :
    stringStrategy p = .ok { mode, bounds := .integers lower upper } := by
  have hlower : Word.IsLong lower ∧ lower ≤ Word.maxInt := by
    simp only [Word.IsLong, Word.minLong, Word.maxLong, Word.maxInt] at *
    omega
  have hupper : Word.IsLong upper ∧ 0 ≤ upper := by
    simp only [Word.IsLong, Word.minLong, Word.maxLong, Word.maxInt] at *
    omega
  have hproper : ¬upper ≤ lower := by omega
  unfold stringStrategy
  simp only [hmode, hitems, hfrom, hto, Option.getD_some, integerOr_numeral hlower.1 hnonneg hlower.2,
    integerOr_numeral hupper.1 hupper.2 hgreatest]
  simp only [bind, Except.bind, if_neg hproper]
  rfl

/-- The strategy of a set of integers. -/
theorem integerStrategy_items {kind : Kind} {p : Parts} {ns : List Int} (hmode : p.mode = some mode)
    (hitems : p.operand? .items = some (joined (ns.map numeral))) (hne : ns ≠ [])
    (hrange : ∀ n ∈ ns, (range kind).1 ≤ n ∧ n ≤ (range kind).2) :
    integerStrategy kind p = .ok { mode, items := some (ns.map .int) } := by
  have hcut : items (joined (ns.map numeral)) = ns.map numeral := by
    apply items_joined (List.map_eq_nil_iff.not.mpr hne)
    · intro x hx
      obtain ⟨n, -, rfl⟩ := List.mem_map.mp hx
      exact comma_not_mem_numeral n
    · intro x hx
      obtain ⟨n, -, rfl⟩ := List.mem_map.mp hx
      exact (isInteger_numeral n).startsFilled
  have hlong : ∀ n ∈ ns, Word.IsLong n ∧ (range kind).1 ≤ n ∧ n ≤ (range kind).2 := by
    intro n hn
    obtain ⟨hlow, hhigh⟩ := hrange n hn
    exact ⟨⟨Int.le_trans (range_least kind) hlow, Int.le_trans hhigh (range_isLong kind).2⟩, hlow, hhigh⟩
  unfold integerStrategy
  simp only [hmode, hitems, Option.getD_some, hcut, integerItems_numerals hlong]
  rfl

/-- A list of texts is read as a set. -/
theorem textItems_joined {xs : List String} (hne : xs ≠ []) (hitems : ∀ x ∈ xs, IsItem x) :
    textItems (joined (xs.map String.toList)) = xs := by
  have hcut : items (joined (xs.map String.toList)) = xs.map String.toList := by
    apply items_joined (List.map_eq_nil_iff.not.mpr hne)
    · intro y hy
      obtain ⟨x, hx, rfl⟩ := List.mem_map.mp hy
      exact (hitems x hx).no_comma
    · intro y hy
      obtain ⟨x, hx, rfl⟩ := List.mem_map.mp hy
      exact (hitems x hx).starts
  have hback : String.ofList ∘ String.toList = id := funext fun x => String.ofList_toList
  rw [textItems, hcut, List.map_map, hback, List.map_id]

/-- The strategy of a set of texts. -/
theorem stringStrategy_items {p : Parts} {xs : List String} (hmode : p.mode = some mode)
    (hoperand : p.operand? .items = some (joined (xs.map String.toList))) (hne : xs ≠ [])
    (hitems : ∀ x ∈ xs, IsItem x) : stringStrategy p = .ok { mode, items := some (xs.map .text) } := by
  unfold stringStrategy
  simp only [hmode, hoperand, Option.getD_some, textItems_joined hne hitems]
  rfl

/-- The strategy of a set of symbols. -/
theorem enumStrategy_items {symbols : List String} {p : Parts} {xs : List String}
    (hmode : p.mode = some mode) (hoperand : p.operand? .items = some (joined (xs.map String.toList)))
    (hne : xs ≠ []) (hitems : ∀ x ∈ xs, IsItem x) (hknown : ∀ x ∈ xs, x ∈ symbols) :
    enumStrategy symbols p = .ok { mode, items := some (xs.map .text) } := by
  have hunknown : ((firsts xs).filter fun x => !symbols.contains x) = [] := by
    rw [List.filter_eq_nil_iff]
    intro x hx
    simp [hknown x (mem_firsts.mp hx)]
  unfold enumStrategy
  simp only [hmode, hoperand, Option.getD_some, textItems_joined hne hitems, hunknown]
  rfl

end

/-! ## Reading back -/

/-- The clauses of a span of integers. -/
def spanEntry (lower upper scale : Int) : List (Clause × List Char) :=
  [(⟨.lower, "from", .integer⟩, numeral lower), (⟨.upper, "to", .integer⟩, numeral upper),
    (⟨.scale, "scale", .natural⟩, numeral scale)]

/-- The clauses of a span of lengths. -/
def lengthEntry (lower upper : Int) : List (Clause × List Char) :=
  [(⟨.lower, "from", .natural⟩, numeral lower), (⟨.upper, "to", .natural⟩, numeral upper)]

/-- The clause of a set. -/
def itemsEntry (operand : Operand) (xs : List (List Char)) : List (Clause × List Char) :=
  [(⟨.items, "in", operand⟩, joined xs)]

/-- What follows a clause belongs to no number. -/
theorem endsNumber_enteredAll (es : List (Clause × List Char)) : EndsNumber (enteredAll es) := by
  intro c hc
  cases es with
  | nil => cases hc
  | cons e es =>
    obtain rfl := Option.some.inj hc
    decide

theorem trimLeft_blank_numeral (n : Int) : trimLeft (' ' :: numeral n) = numeral n :=
  trimLeft_blank (isInteger_numeral n).startsFilled

/-- An integer is read where it is entered. -/
theorem Command.ReadsEach.integer {part : Part} {keyword : String} (n : Int) {es : List (Clause × List Char)}
    (h : ReadsEach es) : ReadsEach ((⟨part, keyword, .integer⟩, numeral n) :: es) := by
  have htrim := trimLeft_blank_numeral n
  refine .entered ?_ htrim (endsNumber_enteredAll es) h
  show IsInteger (trimLeft (' ' :: numeral n))
  rw [htrim]
  exact isInteger_numeral n

/-- So is a natural where no sign may stand. -/
theorem Command.ReadsEach.natural {part : Part} {keyword : String} {n : Int} (hn : 0 ≤ n)
    {es : List (Clause × List Char)} (h : ReadsEach es) : ReadsEach ((⟨part, keyword, .natural⟩, numeral n) :: es) := by
  have htrim := trimLeft_blank_numeral n
  refine .entered ?_ htrim (endsNumber_enteredAll es) h
  show IsNatural (trimLeft (' ' :: numeral n))
  rw [htrim]
  exact isNatural_numeral hn

theorem readsEach_span (lower upper : Int) {scale : Int} (hscale : 0 ≤ scale) :
    ReadsEach (spanEntry lower upper scale) :=
  .integer lower (.integer upper (.natural hscale .nil))

theorem readsEach_lengths {lower upper : Int} (hlower : 0 ≤ lower) (hupper : 0 ≤ upper) :
    ReadsEach (lengthEntry lower upper) :=
  .natural hlower (.natural hupper .nil)

/-- A list does not begin with a blank if its first item does not. -/
theorem startsFilled_joined {xs : List (List Char)} (hfilled : ∀ x ∈ xs, x ≠ []) (hstart : ∀ x ∈ xs, StartsFilled x) :
    StartsFilled (joined xs) := by
  cases xs with
  | nil => exact fun c hc => nomatch hc
  | cons x xs => exact (hstart x List.mem_cons_self).append (hfilled x List.mem_cons_self) _

theorem readsEach_numbers {ns : List Int} (hne : ns ≠ []) :
    ReadsEach (itemsEntry .integers (ns.map numeral)) := by
  have hinteger : ∀ x ∈ ns.map numeral, IsInteger x := by
    intro x hx
    obtain ⟨n, -, rfl⟩ := List.mem_map.mp hx
    exact isInteger_numeral n
  have hstart := startsFilled_joined (fun x hx => (hinteger x hx).ne_nil) fun x hx => (hinteger x hx).startsFilled
  refine .entered ?_ (trimLeft_blank hstart) (endsNumber_enteredAll []) .nil
  show IsIntegers (' ' :: joined (ns.map numeral))
  rw [IsIntegers, pieces_blank_joined (List.map_eq_nil_iff.not.mpr hne) fun x hx => (hinteger x hx).no_comma]
  intro p hp
  obtain ⟨x, hx, rfl⟩ := List.mem_map.mp hp
  rw [trimLeft_blank (hinteger x hx).startsFilled]
  exact hinteger x hx

theorem readsEach_texts {xs : List String} (hne : xs ≠ []) (hitems : ∀ x ∈ xs, IsItem x) :
    ReadsEach (itemsEntry .texts (xs.map String.toList)) := by
  have hitem : ∀ y ∈ xs.map String.toList, y ≠ [] ∧ ',' ∉ y ∧ StartsFilled y := by
    intro y hy
    obtain ⟨x, hx, rfl⟩ := List.mem_map.mp hy
    exact ⟨String.toList_eq_nil_iff.not.mpr (hitems x hx).ne_empty, (hitems x hx).no_comma,
      (hitems x hx).starts⟩
  have hstart := startsFilled_joined (fun y hy => (hitem y hy).1) fun y hy => (hitem y hy).2.2
  have hfilled : FilledPieces (joined (xs.map String.toList)) := by
    obtain ⟨y, ys, hys⟩ := List.exists_cons_of_ne_nil (List.map_eq_nil_iff.not.mpr hne)
    rw [hys] at hitem ⊢
    rw [FilledPieces, pieces_joined fun y hy => (hitem y hy).2.1, List.forall_mem_cons]
    exact ⟨(hitem y List.mem_cons_self).1, by simp⟩
  have hblank : isBlank ' ' = true := by decide
  refine .entered (filledPieces_blank hblank hfilled) ?_ rfl .nil
  exact (itemsText_blank hblank hfilled).trans (itemsText_eq hstart)

/-- A set is entered as one clause. -/
theorem toList_setLine (mode : Mode) (operand : Operand) (xs : List String) :
    (s!"{mode.word} in {listed xs}").toList =
      mode.word.toList ++ enteredAll (itemsEntry operand (xs.map String.toList)) := by
  show (mode.word ++ " in " ++ listed xs).toList = _
  simp [itemsEntry, enteredAll, Clause.entered, toList_listed]

theorem itemsEntry_ends {operand : Operand} {xs : List (List Char)} (hne : xs ≠ [])
    (hfilled : ∀ x ∈ xs, x ≠ []) (hlast : ∀ x ∈ xs.getLast?, EndsFilled x) :
    ∃ e ∈ (itemsEntry operand xs).getLast?, e.2 ≠ [] ∧ EndsFilled e.2 :=
  ⟨_, rfl, joined_ne_nil hne hfilled, endsFilled_joined hfilled hlast⟩

/-- Which grammar and which checks an integer field has. -/
theorem strategyOf_integer {d : Descriptor} (h : d.kind.isInteger = true) :
    grammar? d.kind = some integerGrammar ∧ ∀ p, strategyOf d p = integerStrategy d.kind p := by
  refine ⟨?_, fun p => if_pos h⟩
  cases hk : d.kind with
  | int | long => rfl
  | _ =>
    rw [hk] at h
    cases h

theorem strategyOf_decimal {d : Descriptor} (h : d.kind.isDecimal = true) :
    grammar? d.kind = some decimalGrammar ∧ ∀ p, strategyOf d p = decimalStrategy d.kind p := by
  cases hk : d.kind with
  | float | double =>
    simp only [strategyOf, hk]
    exact ⟨rfl, fun _ => rfl⟩
  | _ =>
    rw [hk] at h
    cases h

theorem strategyOf_string {d : Descriptor} (h : d.kind = .string) :
    grammar? d.kind = some stringGrammar ∧ ∀ p, strategyOf d p = stringStrategy p := by
  simp only [strategyOf, h]
  exact ⟨rfl, fun _ => rfl⟩

theorem strategyOf_enum {d : Descriptor} (h : d.kind = .enum) :
    grammar? d.kind = some enumGrammar ∧ ∀ p, strategyOf d p = enumStrategy d.symbols p := by
  simp only [strategyOf, h]
  exact ⟨rfl, fun _ => rfl⟩

section

variable {d : Descriptor} {mode : Mode}

/-- The clauses of a span of integers say it. -/
theorem says_span {lower upper scale : Int} (hkind : d.kind.isInteger = true)
    (hmode : mode ∈ Strategy.modesOf d.kind) (hlower : Word.IsLong lower) (hupper : Word.IsLong upper)
    (hlt : lower < upper) (hscale : 1 ≤ scale) (hscale' : scale ≤ Word.maxInt)
    (hdates : mode = .date → IsStamp lower ∧ IsStamp upper) :
    Says d mode (spanEntry lower upper scale) { mode, bounds := .integers lower upper, scale } := by
  obtain ⟨hg, hof⟩ := strategyOf_integer hkind
  refine ⟨hmode, ⟨_, hg, ?_⟩, readsEach_span lower upper (by omega), ?_, ?_⟩
  · simp [spanEntry, integerGrammar]
  · exact ⟨_, rfl, numeral_ne_nil scale, endsFilled_numeral scale⟩
  · rw [hof]
    exact integerStrategy_span rfl rfl rfl rfl rfl hlower hupper hlt hscale hscale' hdates

/-- The clause of a set of integers says it. -/
theorem says_numbers {ns : List Int} (hkind : d.kind.isInteger = true) (hmode : mode ∈ Strategy.modesOf d.kind)
    (hne : ns ≠ []) (hrange : ∀ n ∈ ns, (range d.kind).1 ≤ n ∧ n ≤ (range d.kind).2) :
    Says d mode (itemsEntry .integers (ns.map numeral)) { mode, items := some (ns.map .int) } := by
  obtain ⟨hg, hof⟩ := strategyOf_integer hkind
  refine ⟨hmode, ⟨_, hg, ?_⟩, readsEach_numbers hne, ?_, ?_⟩
  · simp [itemsEntry, integerGrammar]
  · apply itemsEntry_ends (List.map_eq_nil_iff.not.mpr hne)
    · intro x hx
      obtain ⟨n, -, rfl⟩ := List.mem_map.mp hx
      exact numeral_ne_nil n
    · intro x hx
      obtain ⟨n, -, rfl⟩ := List.mem_map.mp (List.mem_of_mem_getLast? hx)
      exact endsFilled_numeral n
  · rw [hof]
    exact integerStrategy_items rfl rfl hne hrange

/-- The clauses of a span of lengths say it. -/
theorem says_lengths {lower upper : Int} (hkind : d.kind = .string) (hmode : mode ∈ Strategy.modesOf d.kind)
    (hnonneg : 0 ≤ lower) (hlt : lower < upper) (hgreatest : upper ≤ Word.maxInt) :
    Says d mode (lengthEntry lower upper) { mode, bounds := .integers lower upper } := by
  obtain ⟨hg, hof⟩ := strategyOf_string hkind
  refine ⟨hmode, ⟨_, hg, ?_⟩, readsEach_lengths hnonneg (by omega), ?_, ?_⟩
  · simp [lengthEntry, stringGrammar]
  · exact ⟨_, rfl, numeral_ne_nil upper, endsFilled_numeral upper⟩
  · rw [hof]
    exact stringStrategy_span rfl rfl rfl rfl hnonneg hlt hgreatest

/-- The clause of a set of texts or symbols says it. -/
theorem says_texts {xs : List String} (hkind : d.kind = .string ∨ d.kind = .enum ∧ ∀ x ∈ xs, x ∈ d.symbols)
    (hmode : mode ∈ Strategy.modesOf d.kind) (hne : xs ≠ []) (hitems : ∀ x ∈ xs, IsItem x)
    (hlast : ∀ x ∈ xs.getLast?, EndsFilled x.toList) :
    Says d mode (itemsEntry .texts (xs.map String.toList)) { mode, items := some (xs.map .text) } := by
  have hends : ∃ e ∈ (itemsEntry .texts (xs.map String.toList)).getLast?, e.2 ≠ [] ∧ EndsFilled e.2 := by
    apply itemsEntry_ends (List.map_eq_nil_iff.not.mpr hne)
    · intro y hy
      obtain ⟨x, hx, rfl⟩ := List.mem_map.mp hy
      exact String.toList_eq_nil_iff.not.mpr (hitems x hx).ne_empty
    · intro y hy
      rw [List.getLast?_map] at hy
      obtain ⟨x, hx, rfl⟩ := Option.map_eq_some_iff.mp hy
      exact hlast x hx
  rcases hkind with hkind | ⟨hkind, hknown⟩
  · obtain ⟨hg, hof⟩ := strategyOf_string hkind
    refine ⟨hmode, ⟨_, hg, ?_⟩, readsEach_texts hne hitems, hends, ?_⟩
    · simp [itemsEntry, stringGrammar]
    · rw [hof]
      exact stringStrategy_items rfl rfl hne hitems
  · obtain ⟨hg, hof⟩ := strategyOf_enum hkind
    refine ⟨hmode, ⟨_, hg, ?_⟩, readsEach_texts hne hitems, hends, ?_⟩
    · simp [itemsEntry, enumGrammar]
    · rw [hof]
      exact enumStrategy_items rfl rfl hne hitems hknown

end

/-- **Every strategy is read back from its command.** A dialog about a field that is given the command of a
strategy as an answer takes exactly this strategy from it, asks no other question, and leaves the answers
after it. -/
theorem entered_read_back {d : Descriptor} {strategy : Strategy} {line : String}
    (h : Entered d strategy line) (name : String) (rest : List String) (events : List Event) :
    (askStrategy name d).run ⟨line :: rest, events⟩ =
      (.ok strategy, ⟨rest, events ++ [.prompt (strategyPrompt d.kind name)]⟩) := by
  cases h with
  | @span mode lower upper scale hkind hmode hlower hupper hlt hscale hscale' hdates =>
    apply askStrategy_command (says_span hkind hmode hlower hupper hlt hscale hscale' hdates)
    show (_ ++ " from " ++ _ ++ " to " ++ _ ++ " scale " ++ _ : String).toList = _
    simp [toString, spanEntry, enteredAll, Clause.entered, numeral]
  | @numbers mode ns hkind hmode hne hrange =>
    apply askStrategy_command (says_numbers hkind hmode hne hrange)
    rw [toList_setLine mode .integers, map_toList_integer]
  | @lengths mode lower upper hkind hmode hnonneg hlt hgreatest =>
    apply askStrategy_command (says_lengths hkind hmode hnonneg hlt hgreatest)
    show (_ ++ " from " ++ _ ++ " to " ++ _ : String).toList = _
    simp [toString, lengthEntry, enteredAll, Clause.entered, numeral]
  | @texts mode xs hkind hmode hne hitems hlast =>
    exact askStrategy_command (says_texts hkind hmode hne hitems hlast) (toList_setLine mode .texts xs) name
      rest events

/-- Items that look like clauses, or like a request for help, are items all the same. -/
theorem entered_read_back_keywords :
    Entered (.plain "s" .string)
      { mode := .incr, items := some [.text "from 1 ", .text "in b\nto 2", .text "help"] }
      "incr in from 1 , in b\nto 2, help" ∧
    (askStrategy "s" (.plain "s" .string)).run ⟨["incr in from 1 , in b\nto 2, help", "rand"], []⟩ =
      (.ok { mode := .incr, items := some [.text "from 1 ", .text "in b\nto 2", .text "help"] },
        ⟨["rand"], [.prompt "Strategy for string 's':"]⟩) := by
  have hitems : ∀ x ∈ ["from 1 ", "in b\nto 2", "help"], IsItem x := by decide
  have hlast : ∀ x ∈ ["from 1 ", "in b\nto 2", "help"].getLast?, EndsFilled x.toList := by decide
  have h : Entered (.plain "s" .string)
      { mode := .incr, items := some [.text "from 1 ", .text "in b\nto 2", .text "help"] }
      "incr in from 1 , in b\nto 2, help" :=
    .texts (Or.inl rfl) (List.mem_of_elem_eq_true rfl) (List.cons_ne_nil _ _) hitems hlast
  exact ⟨h, entered_read_back h "s" ["rand"] []⟩

end RecordForge
