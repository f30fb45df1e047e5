import RecordForge.Proofs.Strategies
import RecordForge.Proofs.Operands

/-!
# Numbers as they are spelled in a command

What a grammar takes for a number spells one. The digits may be of any script, and each counts by its value. So the
number depends on the values of the digits, on the sign and on the place of the point only.

* `values`, `spelledInteger`, `places`: the values of the digits, the integer that they spell, and how many of them
  follow the point.
* `digitRun_digits`, `sign_of_natural`: digits are read to their end, and have no sign.
* **`integer?_of_spelled`**: an integer of a command is read, unless it has too many digits.
* **`real?_of_spelled`**: a decimal number of a command is read, whatever it is.
* `Operand.Spells`, `spells_of_read?`: every operand of a command that is read is spelled as its clause asks for.
* `integerOperand_of_spelled`, `decimalOr_of_spelled`: what the checks make of operands that are spelled like this.
-/

namespace RecordForge

open Text Numeral Command

namespace Text

/-- The values of the digits of a text, in order. -/
def values (s : List Char) : List Nat := s.filterMap digit?

/-- The integer that a minus sign and digits spell. -/
def spelledInteger (s : List Char) : Int := if s.head? = some '-' then -(numberOf s : Int) else numberOf s

/-- How many digits follow the point of a number. -/
def places (s : List Char) : Nat := (values (s.dropWhile (· ≠ '.'))).length

variable {s ds rest : List Char}

theorem values_append (s t : List Char) : values (s ++ t) = values s ++ values t := List.filterMap_append

/-- Other characters have no value. -/
theorem values_cons_of_not {c : Char} (hc : isDigit c = false) (s : List Char) : values (c :: s) = values s := by
  rw [isDigit, Option.isSome_eq_false_iff, Option.isNone_iff_eq_none] at hc
  rw [values, List.filterMap_cons, hc]
  rfl

/-- Each digit has one. -/
theorem length_values (hds : ∀ c ∈ ds, isDigit c = true) : (values ds).length = ds.length := by
  induction ds with
  | nil => rfl
  | cons c ds ih =>
    obtain ⟨hc, hds⟩ := List.forall_mem_cons.mp hds
    obtain ⟨d, hd⟩ := Option.isSome_iff_exists.mp hc
    rw [values, List.filterMap_cons, hd, List.length_cons, List.length_cons]
    exact congrArg (· + 1) (ih hds)

theorem ne_of_isDigit {c d : Char} (hc : isDigit c = true) (hd : isDigit d = false) : c ≠ d := by
  rintro rfl
  rw [hc] at hd
  cases hd

/-- A digit is no letter, so it stays as it is in lower case. -/
theorem lowerAscii_of_isDigit {c : Char} (hc : isDigit c = true) : lowerAscii c = c := by
  have hzeros : ∀ z ∈ zeros, z + 9 < 65 ∨ 90 < z := by decide
  rw [isDigit, digit?, Option.isSome_map] at hc
  obtain ⟨z, hz⟩ := Option.isSome_iff_exists.mp hc
  have hfound := List.find?_some hz
  have hrange := hzeros z (List.mem_of_find?_eq_some hz)
  simp only [Bool.and_eq_true, decide_eq_true_eq] at hfound
  refine if_neg fun hletter => ?_
  have hfrom : 65 ≤ c.toNat := hletter.1
  have hto : c.toNat ≤ 90 := hletter.2
  omega

end Text

section

variable {x ds rest : List Char}

/-! ## Digits -/

/-- Digits are read to their end, whatever the scripts that they are of. -/
theorem digitRun_digits : ∀ {ds : List Char}, (∀ c ∈ ds, isDigit c = true) →
    (∀ c ∈ rest.head?, isDigit c = false ∧ c ≠ '_') → digitRun (ds ++ rest) = (values ds, rest)
  | [], _, hrest => by
    cases rest with
    | nil => rfl
    | cons c rest =>
      obtain ⟨hc, hunderscore⟩ := hrest c rfl
      rw [isDigit, Option.isSome_eq_false_iff, Option.isNone_iff_eq_none] at hc
      cases rest with
      | nil => simp [digitRun, hc, values]
      | cons d rest =>
        by_cases hd : d = '_'
        · subst hd
          rw [List.nil_append, digitRun.eq_3 _ _ hunderscore, hc]
          rfl
        · rw [List.nil_append, digitRun.eq_4 _ _ hunderscore (by rintro t ⟨⟩; exact hd rfl), hc]
          rfl
  | c :: ds, hds, hrest => by
    obtain ⟨hc, hds⟩ := List.forall_mem_cons.mp hds
    obtain ⟨d, hd⟩ := Option.isSome_iff_exists.mp hc
    have ih := digitRun_digits hds hrest
    have hvalues : values (c :: ds) = d :: values ds := by rw [values, List.filterMap_cons, hd]; rfl
    have hnext : ∀ t, ds ++ rest ≠ '_' :: t := by
      intro t ht
      cases ds with
      | nil =>
        rw [List.nil_append] at ht
        exact (hrest '_' (by rw [ht]; rfl)).2 rfl
      | cons e ds =>
        exact ne_of_isDigit (hds e List.mem_cons_self) (by decide : isDigit '_' = false) (List.cons.inj ht).1
    rw [List.cons_append, digitRun.eq_4 _ _ (ne_of_isDigit hc (by decide)) hnext, hd, ih, hvalues]

theorem digitRun_all (hds : ∀ c ∈ ds, isDigit c = true) : digitRun ds = (values ds, []) := by
  have hrun : digitRun (ds ++ []) = (values ds, []) := digitRun_digits hds fun c hc => nomatch hc
  rwa [List.append_nil] at hrun

/-- A natural begins with a digit, and so it has no sign. -/
theorem sign_of_natural (h : IsNatural ds) (rest : List Char) : sign (ds ++ rest) = (false, ds ++ rest) := by
  obtain ⟨c, cs, rfl⟩ := List.exists_cons_of_ne_nil h.1
  have hc := h.2 c List.mem_cons_self
  rw [List.cons_append, sign.eq_3]
  · rintro s ⟨⟩
    exact absurd hc (by decide)
  · rintro s ⟨⟩
    exact absurd hc (by decide)

theorem isBlank_of_mem_integer (h : IsInteger x) {c : Char} (hc : c ∈ x) : isBlank c = false := by
  rcases h with h | ⟨ds, rfl, h⟩
  · exact isBlank_of_digit (h.2 c hc)
  · rcases List.mem_cons.mp hc with rfl | hc
    · decide
    · exact isBlank_of_digit (h.2 c hc)

theorem values_ne_nil (h : IsNatural ds) : values ds ≠ [] := by
  intro hnil
  have hlength := length_values h.2
  rw [hnil] at hlength
  exact h.1 (List.length_eq_zero_iff.mp hlength.symm)

/-- What stands before the digits of an integer is a minus sign, or nothing. -/
theorem sign_of_integer (h : IsInteger x) (rest : List Char) : ∃ ds, IsNatural ds ∧ values x = values ds ∧
    sign (x ++ rest) = (decide (x.head? = some '-'), ds ++ rest) := by
  rcases h with h | ⟨ds, rfl, h⟩
  · refine ⟨x, h, rfl, ?_⟩
    obtain ⟨c, cs, hx⟩ := List.exists_cons_of_ne_nil h.1
    have hc : c ≠ '-' := ne_of_isDigit (h.2 c (by rw [hx]; exact List.mem_cons_self)) (by decide)
    have hhead : x.head? ≠ some '-' := by
      rw [hx, List.head?_cons]
      exact fun heq => hc (Option.some.inj heq)
    rw [sign_of_natural h, decide_eq_false hhead]
  · exact ⟨ds, h, values_cons_of_not (by decide) ds, rfl⟩

/-! ## Integers -/

/-- **An integer of a command is read**, unless it has too many digits. -/
theorem integer?_of_spelled (h : IsInteger x) : Numeral.integer? x =
    if digitLimit < (values x).length then .error (.tooLong (values x).length) else .ok (spelledInteger x) := by
  obtain ⟨ds, hds, hvalues, hsign⟩ := sign_of_integer h []
  rw [List.append_nil, List.append_nil] at hsign
  have hfilled : (values ds).isEmpty = false := List.isEmpty_eq_false_iff.mpr (values_ne_nil hds)
  have hnumber : numberOf x = ofDigits (values ds) := congrArg ofDigits hvalues
  rw [Numeral.integer?, stripPadding_eq fun c hc => isBlank_of_mem_integer h hc, hsign, spelledInteger, hnumber,
    hvalues]
  simp only [digitRun_all hds.2, List.head?_nil, reduceCtorEq, if_false, hfilled, List.isEmpty_nil, Bool.not_true,
    Bool.or_false, Bool.false_eq_true, decide_eq_true_eq]

/-! ## Decimal numbers -/

/-- What begins with a digit is no word for a number. -/
theorem not_word_of_natural (h : IsNatural ds) (rest : List Char) {word : String}
    (hword : word = "inf" ∨ word = "infinity" ∨ word = "nan") :
    String.ofList ((ds ++ rest).map lowerAscii) ≠ word := by
  obtain ⟨c, cs, rfl⟩ := List.exists_cons_of_ne_nil h.1
  have hc := h.2 c List.mem_cons_self
  have hi : c ≠ 'i' := ne_of_isDigit hc (by decide)
  have hn : c ≠ 'n' := ne_of_isDigit hc (by decide)
  intro heq
  have hhead := congrArg (fun w => w.toList.head?) heq
  simp only [String.toList_ofList, List.cons_append, List.map_cons, List.head?_cons, lowerAscii_of_isDigit hc] at hhead
  rcases hword with rfl | rfl | rfl
  · exact hi (Option.some.inj hhead)
  · exact hi (Option.some.inj hhead)
  · exact hn (Option.some.inj hhead)

theorem magnitude?_of_natural (h : IsNatural ds) (negative : Bool) :
    magnitude? negative ds = some (nearest negative (ofDigits (values ds)) 0) := by
  have hfilled : (values ds).isEmpty = false := List.isEmpty_eq_false_iff.mpr (values_ne_nil h)
  simp [magnitude?, digitRun_all h.2, hfilled, exponent?]

theorem magnitude?_of_point (h : IsNatural ds) {fs : List Char} (hfs : ∀ c ∈ fs, isDigit c = true) (negative : Bool) :
    magnitude? negative (ds ++ '.' :: fs) =
      some (nearest negative (ofDigits (values ds ++ values fs)) (-((values fs).length : Int))) := by
  have hfilled : (values ds).isEmpty = false := List.isEmpty_eq_false_iff.mpr (values_ne_nil h)
  have hpoint : ∀ c ∈ ('.' :: fs).head?, isDigit c = false ∧ c ≠ '_' := by
    intro c hc
    obtain rfl := Option.some.inj hc
    decide
  simp [magnitude?, digitRun_digits h.2 hpoint, digitRun_all hfs, hfilled, exponent?]

theorem point_not_mem (h : IsInteger x) : '.' ∉ x := by
  rcases h with h | ⟨ds, rfl, h⟩
  · exact fun hc => absurd (h.2 _ hc) (by decide)
  · intro hc
    rcases List.mem_cons.mp hc with hc | hc
    · exact absurd hc (by decide)
    · exact absurd (h.2 _ hc) (by decide)

/-- After an integer comes its point, if there is one. -/
theorem dropWhile_point (h : IsInteger x) (rest : List Char) :
    (x ++ rest).dropWhile (· ≠ '.') = rest.dropWhile (· ≠ '.') := by
  apply List.dropWhile_append_of_pos
  intro c hc
  refine decide_eq_true ?_
  rintro rfl
  exact point_not_mem h hc

/-- **A decimal number of a command is read**, as the double nearest to what is spelled. -/
theorem real?_of_spelled (h : IsDecimal x) : Numeral.real? x =
    some (nearest (decide (x.head? = some '-')) (numberOf x) (-(places x : Int))) := by
  -- the sign and the words are looked at first, and then the digits
  have hread {y : List Char} (hy : IsInteger y) (rest : List Char) (hblank : ∀ c ∈ rest, isBlank c = false) :
      ∃ ds, IsNatural ds ∧ values y = values ds ∧
        Numeral.real? (y ++ rest) = magnitude? (decide ((y ++ rest).head? = some '-')) (ds ++ rest) := by
    obtain ⟨ds, hds, hvalues, hsign⟩ := sign_of_integer hy rest
    have hfilled : ∀ c ∈ y ++ rest, isBlank c = false := by
      intro c hc
      rcases List.mem_append.mp hc with hc | hc
      · exact isBlank_of_mem_integer hy hc
      · exact hblank c hc
    have hhead : (y ++ rest).head? = y.head? := by rw [List.head?_append_of_ne_nil _ hy.ne_nil]
    refine ⟨ds, hds, hvalues, ?_⟩
    rw [Numeral.real?, stripPadding_eq hfilled, hsign, hhead]
    simp only
    rw [if_neg (not_or.mpr ⟨not_word_of_natural hds rest (Or.inl rfl),
      not_word_of_natural hds rest (Or.inr (Or.inl rfl))⟩), if_neg (not_word_of_natural hds rest (Or.inr (Or.inr rfl)))]
  rcases h with h | ⟨whole, fs, rfl, h, hfs⟩
  · obtain ⟨ds, hds, hvalues, hreal⟩ := hread h [] (fun c hc => nomatch hc)
    have hplaces : places x = 0 := by
      have hdrop := dropWhile_point h []
      rw [List.append_nil] at hdrop
      rw [places, hdrop]
      rfl
    rw [List.append_nil, List.append_nil] at hreal
    have hnumber : numberOf x = ofDigits (values ds) := congrArg ofDigits hvalues
    rw [hreal, magnitude?_of_natural hds, hplaces, hnumber]
    rfl
  · have hblank : ∀ c ∈ '.' :: fs, isBlank c = false :=
      List.forall_mem_cons.mpr ⟨by decide, fun c hc => isBlank_of_digit (hfs c hc)⟩
    have hpoint := values_cons_of_not (by decide : isDigit '.' = false) fs
    obtain ⟨ds, hds, hvalues, hreal⟩ := hread h ('.' :: fs) hblank
    have hplaces : places (whole ++ '.' :: fs) = (values fs).length := by
      rw [places, dropWhile_point h, ← hpoint]
      rfl
    have hnumber : numberOf (whole ++ '.' :: fs) = ofDigits (values ds ++ values fs) := by
      rw [← hvalues, ← hpoint, ← values_append]
      rfl
    rw [hreal, magnitude?_of_point hds hfs, hplaces, hnumber]

end

/-! ## Operands of a command -/

namespace Command

/-- How an operand is spelled. The items of a list of integers are spelled as integers. -/
def Operand.Spells : Operand → List Char → Prop
  | natural, x => IsNatural x
  | integer, x => IsInteger x
  | decimal, x => IsDecimal x
  | integers, x => ∀ i ∈ items x, IsInteger i
  | texts, x => FilledPieces x

section

variable {g : Grammar} {p : Parts} {s x rest : List Char}

theorem isInteger_of_mem_items {t : List Char} (h : IsIntegers t) : ∀ i ∈ items (trimLeft t), IsInteger i := by
  rcases isIntegers_cases h with h | ⟨q, u, rfl, hq, hu⟩
  · rw [items, pieces_of_not_mem h.no_comma]
    exact List.forall_mem_singleton.mpr h
  · rw [items, trimLeft_append_of_ne_nil hq.ne_nil, pieces_append hq.no_comma]
    exact List.forall_mem_cons.mpr ⟨hq, List.forall_mem_map.mpr hu⟩

/-- What an operand reads is spelled as it asks for. -/
theorem Operand.spells_of_read? {o : Operand} (h : o.read? s = some (x, rest)) : o.Spells x := by
  obtain ⟨t, -, htakes, rfl, -⟩ := Operand.of_read? h
  cases o with
  | natural | integer | decimal => exact htakes
  | integers => exact isInteger_of_mem_items htakes
  | texts => exact (filledPieces_itemsText t).mpr htakes

/-- An operand of a command is spelled as a clause about its part asks for. -/
theorem spells_of_read? {part : Part} (h : g.read? s = some p) (hx : p.operand? part = some x) :
    ∃ c ∈ g.clauses, c.part = part ∧ c.operand.Spells x := by
  obtain ⟨c, hc, hpart, t, rest, hread⟩ := clause_of_read? h hx
  exact ⟨c, hc, hpart, Operand.spells_of_read? hread⟩

/-- The operands of a command of integers are integers, and lists of them. -/
theorem integers_of_read? (h : integerGrammar.read? s = some p) :
    (∀ part ≠ .items, ∀ x ∈ p.operand? part, IsInteger x) ∧ ∀ x ∈ p.operand? .items, ∀ i ∈ items x, IsInteger i := by
  constructor
  · intro part hpart x hx
    obtain ⟨c, hc, rfl, hspells⟩ := spells_of_read? h hx
    simp only [integerGrammar, List.mem_cons, List.not_mem_nil, or_false] at hc
    rcases hc with rfl | rfl | rfl | rfl
    · exact hspells
    · exact hspells
    · exact Or.inl hspells
    · exact absurd rfl hpart
  · intro x hx
    obtain ⟨c, hc, hpart, hspells⟩ := spells_of_read? h hx
    simp only [integerGrammar, List.mem_cons, List.not_mem_nil, or_false] at hc
    rcases hc with rfl | rfl | rfl | rfl
    · cases hpart
    · cases hpart
    · cases hpart
    · exact hspells

/-- The operands of a command of decimal numbers are such numbers, and a natural. -/
theorem decimals_of_read? (h : decimalGrammar.read? s = some p) :
    (∀ part ≠ .precision, ∀ x ∈ p.operand? part, IsDecimal x) ∧ ∀ x ∈ p.operand? .precision, IsInteger x := by
  constructor
  · intro part hpart x hx
    obtain ⟨c, hc, rfl, hspells⟩ := spells_of_read? h hx
    simp only [decimalGrammar, List.mem_cons, List.not_mem_nil, or_false] at hc
    rcases hc with rfl | rfl | rfl
    · exact hspells
    · exact hspells
    · exact absurd rfl hpart
  · intro x hx
    obtain ⟨c, hc, hpart, hspells⟩ := spells_of_read? h hx
    simp only [decimalGrammar, List.mem_cons, List.not_mem_nil, or_false] at hc
    rcases hc with rfl | rfl | rfl
    · cases hpart
    · cases hpart
    · exact Or.inl hspells

/-- The bounds of lengths are naturals. -/
theorem lengths_of_read? (h : stringGrammar.read? s = some p) :
    ∀ part ≠ .items, ∀ x ∈ p.operand? part, IsInteger x := by
  intro part hpart x hx
  obtain ⟨c, hc, rfl, hspells⟩ := spells_of_read? h hx
  simp only [stringGrammar, List.mem_cons, List.not_mem_nil, or_false] at hc
  rcases hc with rfl | rfl | rfl
  · exact Or.inl hspells
  · exact Or.inl hspells
  · exact absurd rfl hpart

/-- What the checks make of an integer operand. -/
theorem integerOperand_of_spelled (h : IsInteger x) (keyword : String) (low high : Int) :
    integerOperand keyword low high x =
      if digitLimit < (values x).length then .error (.defect (.longNumber (values x).length))
      else if low ≤ spelledInteger x ∧ spelledInteger x ≤ high then .ok (spelledInteger x)
      else .error (.complaint (.operand keyword)) := by
  rw [integerOperand, within?, integer?_of_spelled h]
  by_cases hlong : digitLimit < (values x).length
  · rw [if_pos hlong, if_pos hlong]
    rfl
  · rw [if_neg hlong, if_neg hlong]
    by_cases hrange : low ≤ spelledInteger x ∧ spelledInteger x ≤ high
    · simp only [if_pos hrange]
    · simp only [if_neg hrange]

/-- What the checks make of a decimal operand. -/
theorem decimalOr_of_spelled (h : IsDecimal x) (default : Float) (keyword : String) :
    decimalOr default keyword (some x) =
      if (nearest (decide (x.head? = some '-')) (numberOf x) (-(places x : Int))).isFinite then
        .ok (nearest (decide (x.head? = some '-')) (numberOf x) (-(places x : Int)))
      else .error (.complaint (.operand keyword)) := by
  rw [decimalOr, finite?, real?_of_spelled h]
  dsimp only
  by_cases hfinite : (nearest (decide (x.head? = some '-')) (numberOf x) (-(places x : Int))).isFinite = true
  · simp only [if_pos hfinite]
  · simp only [if_neg hfinite]

end

end Command

end RecordForge
