import RecordForge.Proofs.Answers
import RecordForge.Proofs.Misreadings
import RecordForge.Proofs.Spellings

/-!
# How a dialog about a strategy ends

A command is judged in steps, and each of them may refuse it. A step may also find that it cannot judge at all, and
then the dialog ends with a defect. No text does that, except for a number with too many digits and a day in a year
beyond `yearReach`: what is taken for a number by a grammar spells one.

* `Judged`, `Judged.bind`: a step that gives a result or a complaint, and a chain of such steps.
* `ShortNumbers`, `operand_within`: texts without a long run of digits, and operands as parts of the text read.
* `judged_integerOperand`, `judged_decimalOr`, `judged_checkDates`: the steps, one by one.
* `judged_strategyOf`: a command is judged, whatever it says.
* `ask_ends`: a question with answers that are judged is answered, or there are no more answers.
* **`strategy_dialog_ends`**: what becomes of a dialog about a strategy, whatever the answers are.
-/

namespace RecordForge

open Text Numeral Calendar Command

/-! ## Parts of a text -/

namespace Text

variable {s t : List Char}

/-- A text without a run of more than `digitLimit` decimal digits. -/
def ShortNumbers (s : List Char) : Prop := ∀ ds, ds <:+: s → (∀ c ∈ ds, isDigit c = true) → ds.length ≤ digitLimit

theorem shortNumbers_of_length (h : s.length ≤ digitLimit) : ShortNumbers s :=
  fun _ hds _ => hds.length_le.trans h

theorem ShortNumbers.within (h : ShortNumbers t) (hs : s <:+: t) : ShortNumbers s :=
  fun ds hds hdigits => h ds (hds.trans hs) hdigits

theorem trimLeft_suffix (s : List Char) : trimLeft s <:+ s := List.dropWhile_suffix isBlank

theorem infix_trim (s : List Char) : trim s <:+: s := by
  have hright : trim s <+: trimLeft s := by
    have hreverse := List.reverse_prefix.mpr (trimLeft_suffix (trimLeft s).reverse)
    rwa [List.reverse_reverse] at hreverse
  exact hright.isInfix.trans (trimLeft_suffix s).isInfix

theorem itemsText_suffix (s : List Char) : itemsText s <:+ s := by
  rcases opening s with ⟨b, c, rest, hb, hrest, rfl⟩ | ⟨b, c, rest, hb, hc, hcomma, rfl⟩ | h
  · rw [itemsText_blanks hb hrest, List.append_assoc]
    exact List.suffix_append b (c :: rest)
  · rw [itemsText_filled hb hc hcomma]
    exact List.suffix_append b (c :: rest)
  · exact ⟨[], by rw [List.nil_append, itemsText_bare h]⟩

theorem infix_of_mem_pieces (s : List Char) : ∀ p ∈ pieces s, p <:+: s := by
  induction s using pieces_induction with
  | one p hp =>
    rw [pieces_of_not_mem hp]
    exact List.forall_mem_singleton.mpr (List.infix_refl _)
  | more p t hp ih =>
    have htail : t <:+ p ++ ',' :: t := ⟨p ++ [','], by simp⟩
    rw [pieces_append hp]
    exact List.forall_mem_cons.mpr ⟨(List.prefix_append p _).isInfix, fun q hq => (ih q hq).trans htail.isInfix⟩

theorem infix_of_mem_items {i : List Char} (h : i ∈ items s) : i <:+: s := by
  rw [items] at h
  cases hp : pieces s with
  | nil =>
    rw [hp] at h
    cases h
  | cons first rest =>
    have hpieces : ∀ p ∈ first :: rest, p <:+: s := hp ▸ infix_of_mem_pieces s
    rw [hp] at h
    rcases List.mem_cons.mp h with rfl | h
    · exact hpieces i List.mem_cons_self
    · obtain ⟨p, hmem, rfl⟩ := List.mem_map.mp h
      exact (trimLeft_suffix p).isInfix.trans (hpieces p (List.mem_cons_of_mem first hmem))

end Text

namespace Command

section

variable {g : Grammar} {p : Parts} {s x : List Char}

/-- An operand is a part of the text that is read. -/
theorem operand_within (hg : Clause.Clear g.clauses) (hs : s.getLast? ≠ some '\n') (hread : g.read? s = some p)
    {part : Part} (hx : p.operand? part = some x) : x <:+: s := by
  obtain ⟨w, rfl, rfl⟩ : ∃ w : Wording, w.text = s ∧ w.parts = p := by
    rcases (read?_iff hg hs).mp hread with ⟨w, -, -, htext, hparts⟩ | ⟨-, w, -, -, htext, hparts⟩
    all_goals exact ⟨w, htext, hparts⟩
  obtain ⟨l, r, hlookup, -⟩ := List.lookup_eq_some_iff.mp hx
  have hmem : (part, x) ∈ w.phrases.map Phrase.operand := by
    show (part, x) ∈ w.parts.operands
    rw [hlookup]
    exact List.mem_append_right l List.mem_cons_self
  obtain ⟨q, hq, hoperand⟩ := List.mem_map.mp hmem
  obtain ⟨-, rfl⟩ := Prod.mk.inj hoperand
  have hwithin (o : Operand) (t : List Char) : o.within t <:+ t := by
    cases o with
    | texts => exact itemsText_suffix t
    | _ => exact trimLeft_suffix t
  have hafter : q.after <:+ q.text := ⟨q.before ++ q.clause.keyword.toList, by rw [Phrase.text, List.append_assoc]⟩
  have hphrase : q.text <:+: phrasesText w.phrases := by
    obtain ⟨l, r, hphrases⟩ := List.append_of_mem hq
    exact ⟨phrasesText l, phrasesText r, by simp [hphrases, phrasesText]⟩
  have hphrases : phrasesText w.phrases <:+ w.text := List.suffix_append _ _
  exact (hwithin _ _).isInfix.trans (hafter.isInfix.trans (hphrase.trans hphrases.isInfix))

/-- An integer has at most `digitLimit` digits where there is no longer run of them. -/
theorem length_values_le (h : IsInteger x) (hshort : ShortNumbers x) : (values x).length ≤ digitLimit := by
  rcases h with h | ⟨ds, rfl, h⟩
  · rw [length_values h.2]
    exact hshort x (List.infix_refl _) h.2
  · rw [values_cons_of_not (by decide), length_values h.2]
    exact hshort ds (List.suffix_cons '-' ds).isInfix h.2

/-! ## Steps that judge -/

/-- A step gives a result or a complaint. -/
def Judged {α : Type} (r : Except Refusal α) : Prop := ∀ e, r ≠ .error (.defect e)

section

variable {α β : Type} {r : Except Refusal α}

theorem judged_ok (a : α) : Judged (.ok a : Except Refusal α) := nofun

theorem judged_complaint (c : Complaint) : Judged (.error (.complaint c) : Except Refusal α) := nofun

/-- Steps that judge are a chain that does. -/
theorem Judged.bind {f : α → Except Refusal β} (hr : Judged r) (hf : ∀ a, r = .ok a → Judged (f a)) :
    Judged (r >>= f) := by
  cases r with
  | ok a => exact hf a rfl
  | error e => exact fun d hd => hr d (congrArg Except.error (Except.error.inj hd))

end

theorem judged_integerOperand (h : IsInteger x) (hshort : ShortNumbers x) (keyword : String) (low high : Int) :
    Judged (integerOperand keyword low high x) := by
  have hlength : ¬digitLimit < (values x).length := Nat.not_lt.mpr (length_values_le h hshort)
  rw [integerOperand_of_spelled h, if_neg hlength]
  split
  · exact judged_ok _
  · exact judged_complaint _

theorem judged_integerOr {y : Option (List Char)} (h : ∀ x ∈ y, IsInteger x ∧ ShortNumbers x) (default : Int)
    (keyword : String) (low high : Int) : Judged (integerOr default keyword low high y) := by
  cases y with
  | none => exact judged_ok default
  | some x => exact judged_integerOperand (h x rfl).1 (h x rfl).2 keyword low high

theorem judged_decimalOr {y : Option (List Char)} (h : ∀ x ∈ y, IsDecimal x) (default : Float) (keyword : String) :
    Judged (decimalOr default keyword y) := by
  cases y with
  | none => exact judged_ok default
  | some x =>
    rw [decimalOr_of_spelled (h x rfl)]
    split
    · exact judged_ok _
    · exact judged_complaint _

theorem judged_integerItems {low high : Int} : ∀ {xs : List (List Char)}, (∀ x ∈ xs, IsInteger x ∧ ShortNumbers x) →
    Judged (integerItems low high xs)
  | [], _ => judged_ok []
  | x :: xs, h => by
    obtain ⟨hx, hxs⟩ := List.forall_mem_cons.mp h
    rw [integerItems]
    refine (judged_integerOperand hx.1 hx.2 "in" low high).bind fun n _ => ?_
    exact (judged_integerItems hxs).bind fun more _ => judged_ok _

/-- The first number that is read as a day in a year beyond `yearReach`. -/
def stampReach : Int := (yearReach + 1) * 10000

theorem readStamp_ne_outOfReach {n : Int} (h : n < stampReach) : readStamp n ≠ .outOfReach := by
  have hyear : ¬yearReach < n / 10000 := by
    simp only [stampReach, yearReach] at h ⊢
    omega
  rw [readStamp, if_neg hyear]
  split
  · nofun
  · split <;> nofun

theorem judged_checkDates {lower upper : Int} (hlower : (p.operand? .lower).isSome → lower < stampReach)
    (hupper : (p.operand? .upper).isSome → upper < stampReach) : Judged (checkDates p lower upper) := by
  rw [checkDates]
  split
  · exact judged_complaint .missingDates
  · rename_i hgiven
    rw [Bool.or_eq_true, not_or, Option.isNone_iff_eq_none, Option.isNone_iff_eq_none, ← ne_eq, ← ne_eq,
      Option.ne_none_iff_isSome, Option.ne_none_iff_isSome] at hgiven
    have hfirst := readStamp_ne_outOfReach (hlower hgiven.1)
    have hsecond := readStamp_ne_outOfReach (hupper hgiven.2)
    split
    · exact absurd ‹_› hfirst
    · split
      · exact absurd ‹_› hsecond
      · split
        · exact judged_complaint .shortSpan
        · exact judged_ok ()
      · exact judged_complaint .notDates

/-- The bounds of a span of days are no days in a year beyond `yearReach`. -/
def DatesInReach (p : Parts) : Prop :=
  p.mode = some .date → ∀ part ∈ [Part.lower, .upper], ∀ x ∈ p.operand? part, ∀ n ∈ (Numeral.integer? x).toOption,
    n < stampReach

instance (p : Parts) : Decidable (DatesInReach p) := inferInstanceAs (Decidable (_ → _))

/-- A bound that is given is what its text spells. -/
theorem bound_lt_stampReach {part : Part} {default n low high : Int} {keyword : String} (hdates : DatesInReach p)
    (hmode : p.mode = some .date) (hpart : part ∈ [Part.lower, .upper])
    (hn : integerOr default keyword low high (p.operand? part) = .ok n) (hgiven : (p.operand? part).isSome) :
    n < stampReach := by
  obtain ⟨x, hx⟩ := Option.isSome_iff_exists.mp hgiven
  rw [hx] at hn
  apply hdates hmode part hpart x hx n
  rw [(integerOperand_ok hn).1]
  rfl

theorem judged_integerStrategy {kind : Kind}
    (hnumbers : ∀ part ≠ .items, ∀ x ∈ p.operand? part, IsInteger x ∧ ShortNumbers x)
    (hitems : ∀ x ∈ p.operand? .items, ∀ i ∈ items x, IsInteger i ∧ ShortNumbers i) (hdates : DatesInReach p) :
    Judged (integerStrategy kind p) := by
  rw [integerStrategy]
  cases hx : p.operand? .items with
  | some x => exact (judged_integerItems (hitems x hx)).bind fun vs _ => judged_ok _
  | none =>
    refine (judged_integerOr (hnumbers .lower (by decide)) _ _ _ _).bind fun lower hlower => ?_
    refine (judged_integerOr (hnumbers .upper (by decide)) _ _ _ _).bind fun upper hupper => ?_
    refine (judged_integerOr (hnumbers .scale (by decide)) _ _ _ _).bind fun scale _ => ?_
    dsimp only
    split
    · exact judged_complaint _
    · split
      · exact judged_complaint .zeroScale
      · split
        · rename_i hmode
          have hdate : p.mode = some .date := by
            cases hm : p.mode with
            | none =>
              rw [hm] at hmode
              cases hmode
            | some m =>
              rw [hm] at hmode
              exact congrArg some hmode
          have hlow := bound_lt_stampReach hdates hdate (by decide) hlower
          have hhigh := bound_lt_stampReach hdates hdate (by decide) hupper
          exact (judged_checkDates hlow hhigh).bind fun _ _ => judged_ok _
        · exact judged_ok _

theorem judged_decimalStrategy {kind : Kind} (hnumbers : ∀ part ≠ .precision, ∀ x ∈ p.operand? part, IsDecimal x)
    (hprecision : ∀ x ∈ p.operand? .precision, IsInteger x ∧ ShortNumbers x) : Judged (decimalStrategy kind p) := by
  rw [decimalStrategy]
  refine (judged_decimalOr (hnumbers .lower (by decide)) _ _).bind fun lower _ => ?_
  refine (judged_decimalOr (hnumbers .upper (by decide)) _ _).bind fun upper _ => ?_
  refine (judged_integerOr hprecision _ _ _ _).bind fun precision _ => ?_
  dsimp only
  split
  · exact judged_complaint _
  · exact judged_ok _

theorem judged_stringStrategy (hnumbers : ∀ part ≠ .items, ∀ x ∈ p.operand? part, IsInteger x ∧ ShortNumbers x) :
    Judged (stringStrategy p) := by
  rw [stringStrategy]
  cases p.operand? .items with
  | some x => exact judged_ok _
  | none =>
    refine (judged_integerOr (hnumbers .lower (by decide)) _ _ _ _).bind fun lower _ => ?_
    refine (judged_integerOr (hnumbers .upper (by decide)) _ _ _ _).bind fun upper _ => ?_
    dsimp only
    split
    · exact judged_complaint _
    · exact judged_ok _

theorem judged_enumStrategy (symbols : List String) (p : Parts) : Judged (enumStrategy symbols p) := by
  rw [enumStrategy]
  cases p.operand? .items with
  | none => exact judged_ok _
  | some x =>
    dsimp only
    split
    · exact judged_ok _
    · exact judged_complaint _

/-- **A command is judged, whatever it says**, if its numbers are not too long and its days not out of reach. -/
theorem judged_strategyOf {d : Descriptor} (hg : grammar? d.kind = some g) (hs : s.getLast? ≠ some '\n')
    (hread : g.read? s = some p) (hshort : ShortNumbers s)
    (hdates : d.kind.isInteger = true → DatesInReach p) : Judged (strategyOf d p) := by
  have hpart {part : Part} {x : List Char} (hx : p.operand? part = some x) : ShortNumbers x :=
    hshort.within (operand_within (clear_clauses hg) hs hread hx)
  cases hk : d.kind with
  | int | long =>
    have hkind : d.kind.isInteger = true := by rw [hk]; rfl
    obtain ⟨hgrammar, hof⟩ := strategyOf_integer hkind
    obtain rfl := Option.some.inj (hg.symm.trans hgrammar)
    obtain ⟨hnumbers, hitems⟩ := integers_of_read? hread
    rw [hof]
    refine judged_integerStrategy (fun part hne x hx => ⟨hnumbers part hne x hx, hpart hx⟩) ?_ (hdates hkind)
    exact fun x hx i hi => ⟨hitems x hx i hi, (hpart hx).within (infix_of_mem_items hi)⟩
  | float | double =>
    obtain ⟨hgrammar, hof⟩ := strategyOf_decimal (by rw [hk]; rfl : d.kind.isDecimal = true)
    obtain rfl := Option.some.inj (hg.symm.trans hgrammar)
    obtain ⟨hnumbers, hprecision⟩ := decimals_of_read? hread
    rw [hof]
    exact judged_decimalStrategy hnumbers fun x hx => ⟨hprecision x hx, hpart hx⟩
  | string =>
    obtain ⟨hgrammar, hof⟩ := strategyOf_string hk
    obtain rfl := Option.some.inj (hg.symm.trans hgrammar)
    rw [hof]
    exact judged_stringStrategy fun part hne x hx => ⟨lengths_of_read? hread part hne x hx, hpart hx⟩
  | enum =>
    rw [(strategyOf_enum hk).2]
    exact judged_enumStrategy d.symbols p
  | _ =>
    rw [hk] at hg
    cases hg

end

end Command

/-! ## Dialogs -/

namespace Dialog

/-- **A question with answers that are judged is answered, or there are no more answers.** -/
theorem ask_ends {α : Type} (prompt : String) {judge : String → Verdict α} : ∀ {answers : List String},
    (∀ x ∈ answers, ∀ e, judge (trimmed x) ≠ .abort e) → ∀ events,
      (∃ a rest said, Answered judge answers a rest ∧
        (ask prompt judge).run ⟨answers, events⟩ = (.ok a, ⟨rest, said⟩)) ∨
      (∀ x ∈ answers, (judge (trimmed x)).reply?.isSome) ∧
        ∃ said, (ask prompt judge).run ⟨answers, events⟩ = (.error (.exhausted (trimmed prompt)), ⟨[], said⟩)
  | [], _, events => Or.inr ⟨fun _ hx => absurd hx List.not_mem_nil, _, rfl⟩
  | line :: answers, h, events => by
    obtain ⟨hline, hrest⟩ := List.forall_mem_cons.mp h
    cases hj : judge (trimmed line) with
    | accept a =>
      have hanswered : Answered judge (line :: answers) a answers :=
        ⟨[], line, rfl, hj, fun _ hx => absurd hx List.not_mem_nil⟩
      obtain ⟨said, hrun⟩ := ask_of_answered prompt hanswered events
      exact Or.inl ⟨a, answers, said, hanswered, hrun⟩
    | abort e => exact absurd hj (hline e)
    | explain text | reject text =>
      have hreply : (judge (trimmed line)).reply?.isSome := by rw [hj]; rfl
      obtain ⟨next, hnext⟩ :
          ∃ next, askFrom prompt judge (line :: answers) events = askFrom prompt judge answers next :=
        askFrom_of_reply hreply answers events
      rcases ask_ends prompt hrest next with ⟨a, rest, said, ⟨refused, x, rfl, hx, hrefused⟩, hrun⟩ | ⟨hall, said, hrun⟩
      · refine Or.inl ⟨a, rest, said, ⟨line :: refused, x, rfl, hx, ?_⟩, hnext.trans hrun⟩
        exact List.forall_mem_cons.mpr ⟨hreply, hrefused⟩
      · exact Or.inr ⟨List.forall_mem_cons.mpr ⟨hreply, hall⟩, said, hnext.trans hrun⟩

section

variable {g : Grammar} {name : String} {d : Descriptor} {line : String}

/-- An answer that has the question repeated asks for help, or is refused with a complaint. -/
theorem reply?_isSome (h : (judgeStrategy g name d line).reply?.isSome) :
    line = "help" ∨ ∃ c, readStrategy g d line = .error (.complaint c) := by
  by_cases hhelp : line = "help"
  · exact Or.inl hhelp
  · rw [judgeStrategy, if_neg hhelp] at h
    cases hread : readStrategy g d line with
    | ok s =>
      rw [hread] at h
      cases h
    | error e =>
      cases e with
      | complaint c => exact Or.inr ⟨c, rfl⟩
      | defect e =>
        rw [hread] at h
        cases h

theorem judgeStrategy_ne_abort (h : Judged (readStrategy g d line)) (e : Failure) :
    judgeStrategy g name d line ≠ .abort e := by
  intro habort
  rw [judgeStrategy] at habort
  split at habort
  · cases habort
  · cases hread : readStrategy g d line with
    | ok s =>
      rw [hread] at habort
      cases habort
    | error r =>
      rw [hread] at habort
      cases r with
      | complaint c => cases habort
      | defect e => exact absurd hread (h e)

end

/-- **How a dialog about a strategy ends**, for every field that has commands and any answers without an endless
number or a day out of reach. One of the answers is accepted, and the dialog gives its strategy: the answers before it
ask for help or are refused with a complaint, and the ones after it are left. Otherwise all of them do or are, and the
dialog has used them up. -/
theorem strategy_dialog_ends {d : Descriptor} {g : Grammar} (hg : grammar? d.kind = some g) {answers : List String}
    (hshort : ∀ x ∈ answers, ShortNumbers x.toList)
    (hdates : d.kind.isInteger = true → ∀ x ∈ answers, ∀ p ∈ g.read? (trimmed x).toList, DatesInReach p)
    (name : String) (events : List Event) :
    (∃ refused line rest strategy said, answers = refused ++ line :: rest ∧
      (∀ x ∈ refused, trimmed x = "help" ∨ ∃ c, readStrategy g d (trimmed x) = .error (.complaint c)) ∧
      trimmed line ≠ "help" ∧ readStrategy g d (trimmed line) = .ok strategy ∧
      (askStrategy name d).run ⟨answers, events⟩ = (.ok strategy, ⟨rest, said⟩)) ∨
    (∀ x ∈ answers, trimmed x = "help" ∨ ∃ c, readStrategy g d (trimmed x) = .error (.complaint c)) ∧
      ∃ said, (askStrategy name d).run ⟨answers, events⟩ =
        (.error (.exhausted (trimmed (strategyPrompt d.kind name))), ⟨[], said⟩) := by
  have hjudged : ∀ x ∈ answers, Judged (readStrategy g d (trimmed x)) := by
    intro x hx
    rw [readStrategy]
    cases hread : g.read? (trimmed x).toList with
    | none => exact judged_complaint .unreadable
    | some p =>
      have hinfix : (trimmed x).toList <:+: x.toList := toList_trimmed x ▸ infix_trim x.toList
      exact judged_strategyOf hg (getLast?_trimmed x) hread ((hshort x hx).within hinfix)
        fun hkind => hdates hkind x hx p hread
  have hask : askStrategy name d = ask (strategyPrompt d.kind name) (judgeStrategy g name d) := by rw [askStrategy, hg]
  rw [hask]
  have habort : ∀ x ∈ answers, ∀ e, judgeStrategy g name d (trimmed x) ≠ .abort e :=
    fun x hx => judgeStrategy_ne_abort (hjudged x hx)
  rcases ask_ends (strategyPrompt d.kind name) habort events
    with ⟨strategy, rest, said, ⟨refused, line, hanswers, haccept, hrefused⟩, hrun⟩ | ⟨hall, said, hrun⟩
  · have hhelp : trimmed line ≠ "help" := by
      intro heq
      rw [judgeStrategy, if_pos heq] at haccept
      cases haccept
    exact Or.inl ⟨refused, line, rest, strategy, said, hanswers, fun x hx => reply?_isSome (hrefused x hx), hhelp,
      readStrategy_of_accept haccept, hrun⟩
  · exact Or.inr ⟨fun x hx => reply?_isSome (hall x hx), said, hrun⟩

/-- A number beyond every range, a call for help, a day that is none, digits alone and a day too far off for the
calendar are asked again. -/
theorem strategy_dialog_ends_days :
    (∀ x ∈ ["from -99999999999999999999", "help", "date from 20230229 to 20240301", "\u0661\u0662",
        "date from 20240228 to 21474836479999"], trimmed x = "help" ∨
      ∃ c, readStrategy integerGrammar (.plain "day" .long) (trimmed x) = .error (.complaint c)) ∧
    ∃ said, (askStrategy "day" (.plain "day" .long)).run
      ⟨["from -99999999999999999999", "help", "date from 20230229 to 20240301", "\u0661\u0662",
        "date from 20240228 to 21474836479999", "date from 20240228 to 20240301", "rand"], []⟩ =
      (.ok { mode := .date, bounds := .integers 20240228 20240301 }, ⟨["rand"], said⟩) := by
  have hshort : ∀ x ∈ ["from -99999999999999999999", "help", "date from 20230229 to 20240301", "\u0661\u0662",
      "date from 20240228 to 21474836479999", "date from 20240228 to 20240301", "rand"],
      x.toList.length ≤ digitLimit := by decide
  have hends := strategy_dialog_ends (d := .plain "day" .long) (g := integerGrammar) rfl
    (fun x hx => shortNumbers_of_length (hshort x hx)) (fun _ => by decide) "day" []
  rcases hends with ⟨refused, line, rest, strategy, said, hanswers, hrefused, -, -, hrun⟩ | ⟨-, said, hrun⟩
  · obtain ⟨hstrategy, hsession⟩ := Prod.mk.inj hrun
    obtain rfl : rest = ["rand"] := (congrArg Session.answers hsession).symm
    obtain rfl : strategy = { mode := .date, bounds := .integers 20240228 20240301 } :=
      (Except.ok.inj hstrategy).symm
    have hsplit : refused ++ [line, "rand"] = ["from -99999999999999999999", "help", "date from 20230229 to 20240301",
        "\u0661\u0662", "date from 20240228 to 21474836479999"] ++ ["date from 20240228 to 20240301", "rand"] :=
      hanswers.symm
    obtain ⟨rfl, -⟩ := List.append_inj' hsplit rfl
    exact ⟨hrefused, said, hrun⟩
  · cases (Prod.mk.inj hrun).1

end Dialog

end RecordForge
