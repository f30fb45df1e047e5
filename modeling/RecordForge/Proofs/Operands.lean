import Mathlib.Data.List.Basic
import RecordForge.Proofs.Clauses

/-!
# Operands as they are spelled

What may follow a keyword can be said without reading it: blanks and a number, or several numbers with commas
between them, or any text without an empty piece. An operand reads exactly what it takes, and to its end.

* `IsBlanks`, `FilledPieces`: texts of blanks, and texts without an empty piece between their commas.
* `itemsText`, **`texts?_eq`**: a list of texts without the blanks before it, which is what is read of it.
* `IsNatural`, `IsInteger`, `IsDecimal`, `IsIntegers`: how numbers and lists of them are spelled.
* `Operand.Takes`, `Operand.within`: what may follow a keyword, and the operand in it.
* **`Operand.read?_append`**, `Operand.of_read?`: what an operand reads is what it takes.
-/

namespace RecordForge

open Text

namespace Text

/-- Texts of blanks only. -/
def IsBlanks (s : List Char) : Prop := ∀ c ∈ s, isBlank c = true

variable {s t : List Char}

theorem trimLeft_append (h : IsBlanks s) (t : List Char) : trimLeft (s ++ t) = trimLeft t :=
  List.dropWhile_append_of_pos h

/-- A text is some blanks and then what is left of it without them. -/
theorem exists_trimLeft (s : List Char) : ∃ b, IsBlanks b ∧ s = b ++ trimLeft s := by
  refine ⟨s.takeWhile isBlank, ?_, (takeWhile_append_trimLeft s).symm⟩
  intro c hc
  exact List.all_eq_true.mp List.all_takeWhile c hc

theorem startsFilled_trimLeft (s : List Char) : StartsFilled (trimLeft s) := by
  intro c hc
  have hdrop := List.head?_dropWhile_not isBlank s
  rw [trimLeft] at hc
  rw [Option.mem_def.mp hc] at hdrop
  simpa using hdrop

/-- A text that is trimmed does not end with a blank. -/
theorem endsFilled_trim (s : List Char) : EndsFilled (trim s) := by
  intro c hc
  rw [trim, trimRight, List.getLast?_reverse] at hc
  exact startsFilled_trimLeft (trimLeft s).reverse c hc

theorem trimLeft_append_of_ne_nil (h : trimLeft s ≠ []) (t : List Char) :
    trimLeft (s ++ t) = trimLeft s ++ t := by
  obtain ⟨b, hb, hs⟩ := exists_trimLeft s
  have hstart := (startsFilled_trimLeft s).append h t
  calc trimLeft (s ++ t) = trimLeft (b ++ (trimLeft s ++ t)) := by rw [← List.append_assoc, ← hs]
    _ = trimLeft s ++ t := by rw [trimLeft_append hb, trimLeft_eq hstart]

/-- No decimal digit of any script is a blank. -/
theorem isBlank_of_digit {c : Char} (h : isDigit c = true) : isBlank c = false := by
  have hzeros : ∀ z ∈ zeros, 0x20 < z ∧ (z + 9 < 0x85 ∨ 0xA0 < z) ∧ (z + 9 < 0x1680 ∨ 0x1680 < z) ∧
      (z + 9 < 0x2000 ∨ 0x205F < z) ∧ (z + 9 < 0x3000 ∨ 0x3000 < z) := by decide
  rw [isDigit, digit?, Option.isSome_map] at h
  obtain ⟨z, hz⟩ := Option.isSome_iff_exists.mp h
  have hfound := List.find?_some hz
  have hrange := hzeros z (List.mem_of_find?_eq_some hz)
  simp only [Bool.and_eq_true, decide_eq_true_eq] at hfound
  simp only [isBlank, Bool.or_eq_false_iff, Bool.and_eq_false_iff, decide_eq_false_iff_not,
    beq_eq_false_iff_ne]
  omega

/-! ## Pieces -/

/-- A text is one piece, or it is cut at its first comma. -/
theorem cut (s : List Char) : ',' ∉ s ∨ ∃ p t, ',' ∉ p ∧ s = p ++ ',' :: t := by
  by_cases h : ',' ∈ s
  · obtain ⟨p, t, hs, hp⟩ := List.eq_append_cons_of_mem h
    exact Or.inr ⟨p, t, hp, hs⟩
  · exact Or.inl h

/-- What holds of every piece, and of a piece before a text of which it holds, holds of every text. -/
theorem pieces_induction {P : List Char → Prop} (one : ∀ p, ',' ∉ p → P p)
    (more : ∀ p t, ',' ∉ p → P t → P (p ++ ',' :: t)) (s : List Char) : P s := by
  induction hn : s.length using Nat.strongRecOn generalizing s with
  | ind n ih =>
    rcases cut s with hs | ⟨p, t, hp, rfl⟩
    · exact one s hs
    · rw [List.length_append, List.length_cons] at hn
      exact more p t hp (ih t.length (by omega) t rfl)

theorem comma_not_mem (h : IsBlanks s) : ',' ∉ s := by
  intro hcomma
  exact absurd (h ',' hcomma) (by decide)

/-- None of the pieces of a text is empty. -/
def FilledPieces (s : List Char) : Prop := ∀ p ∈ pieces s, p ≠ []

instance (s : List Char) : Decidable (FilledPieces s) :=
  inferInstanceAs (Decidable (∀ p ∈ pieces s, p ≠ []))

theorem all_pieces_iff : ((pieces s).all fun p => !p.isEmpty) = true ↔ FilledPieces s := by
  simp [FilledPieces]

/-- What stands before a text goes to its first piece. -/
theorem tail_pieces_append (h : ',' ∉ t) (s : List Char) : (pieces (t ++ s)).tail = (pieces s).tail := by
  rcases cut s with hs | ⟨p, u, hp, rfl⟩
  · rw [pieces_of_not_mem hs, pieces_of_not_mem (by simp [h, hs])]
    rfl
  · rw [← List.append_assoc, pieces_append hp, pieces_append (by simp [h, hp])]
    rfl

/-- So only the further pieces matter where something stands before a text. -/
theorem filledPieces_append (h : ',' ∉ t) (hne : t ≠ []) (s : List Char) :
    FilledPieces (t ++ s) ↔ ∀ p ∈ (pieces s).tail, p ≠ [] := by
  rw [← tail_pieces_append h]
  rcases cut s with hs | ⟨p, u, hp, rfl⟩
  · rw [FilledPieces, pieces_of_not_mem (by simp [h, hs])]
    simp [hne]
  · rw [FilledPieces, ← List.append_assoc, pieces_append (by simp [h, hp])]
    simp [hne]

theorem takeWhile_piece {p : List Char} (hp : ',' ∉ p) (rest : List Char) (hrest : ∀ c ∈ rest.head?, c = ',') :
    (p ++ rest).takeWhile (· ≠ ',') = p ∧ (p ++ rest).dropWhile (· ≠ ',') = rest := by
  have hall : ∀ c ∈ p, decide (c ≠ ',') = true := by
    intro c hc
    refine decide_eq_true ?_
    rintro rfl
    exact hp hc
  rw [List.takeWhile_append_of_pos hall, List.dropWhile_append_of_pos hall]
  cases rest with
  | nil => simp
  | cons c rest =>
    obtain rfl := hrest c rfl
    simp

/-- After the first piece is a comma or nothing. -/
theorem head?_afterPiece (s : List Char) : ∀ c ∈ (s.dropWhile (· ≠ ',')).head?, c = ',' := by
  intro c hc
  have hdrop := List.head?_dropWhile_not (· ≠ ',') s
  rw [Option.mem_def.mp hc] at hdrop
  simpa using hdrop

theorem filledPieces_blank {c : Char} (hc : isBlank c = true) (h : FilledPieces s) : FilledPieces (c :: s) := by
  have hcomma : ',' ≠ c := by
    rintro rfl
    exact absurd hc (by decide)
  exact (filledPieces_append (t := [c]) (by simpa using hcomma) (by simp) s).mpr
    fun p hp => h p (List.mem_of_mem_tail hp)

/-- The first piece and the further ones. -/
theorem filledPieces_iff (s : List Char) : FilledPieces s ↔
    s.takeWhile (· ≠ ',') ≠ [] ∧ ∀ p ∈ (pieces (s.dropWhile (· ≠ ','))).tail, p ≠ [] := by
  rcases cut s with hs | ⟨p, t, hp, rfl⟩
  · obtain ⟨htake, hdrop⟩ := takeWhile_piece hs [] (by simp)
    rw [List.append_nil] at htake hdrop
    rw [FilledPieces, pieces_of_not_mem hs, htake, hdrop]
    simp [pieces]
  · obtain ⟨htake, hdrop⟩ := takeWhile_piece hp (',' :: t) (by simp)
    rw [FilledPieces, pieces_append hp, htake, hdrop]
    simp [pieces]

/-! ## Lists of texts -/

/-- A list of texts without the blanks before it. Where its first piece has nothing but blanks, the last one of
them stays. -/
def itemsText (s : List Char) : List Char :=
  let first := s.takeWhile (· ≠ ',')
  if first.all isBlank then first.drop (first.length - 1) ++ s.dropWhile (· ≠ ',') else trimLeft s

/-- Blanks that fill the first piece are left out but for the last one. -/
theorem itemsText_blanks {b : List Char} {c : Char} (hb : IsBlanks (b ++ [c])) {rest : List Char}
    (hrest : ∀ d ∈ rest.head?, d = ',') : itemsText (b ++ [c] ++ rest) = c :: rest := by
  obtain ⟨htake, hdrop⟩ := takeWhile_piece (comma_not_mem hb) rest hrest
  have hall : (b ++ [c]).all isBlank = true := List.all_eq_true.mpr hb
  rw [itemsText, htake, hdrop, if_pos hall]
  simp

/-- Blanks before something else are left out. -/
theorem itemsText_filled {b : List Char} (hb : IsBlanks b) {c : Char} (hc : isBlank c = false) (hcomma : c ≠ ',')
    (s : List Char) : itemsText (b ++ c :: s) = c :: s := by
  have hpiece : ∀ a ∈ b, decide (a ≠ ',') = true := by
    intro a ha
    refine decide_eq_true ?_
    rintro rfl
    exact comma_not_mem hb ha
  have hall : ¬((b ++ c :: s).takeWhile (· ≠ ',')).all isBlank = true := by
    rw [List.takeWhile_append_of_pos hpiece]
    simp [hc, hcomma]
  have hstart : StartsFilled (c :: s) := by
    intro a ha
    obtain rfl := Option.some.inj ha
    exact hc
  rw [itemsText, if_neg hall, trimLeft_append hb, trimLeft_eq hstart]

/-- Where no blank is before a comma or the end, nothing is left out. -/
theorem itemsText_bare {s : List Char} (h : ∀ c ∈ s.head?, c = ',') : itemsText s = s := by
  obtain ⟨htake, hdrop⟩ := takeWhile_piece List.not_mem_nil s h
  rw [List.nil_append] at htake hdrop
  rw [itemsText, htake, hdrop]
  rfl

/-- A text begins with blanks that fill its first piece, or with blanks before something else, or with a piece
that is empty. -/
theorem opening (s : List Char) :
    (∃ b c rest, IsBlanks (b ++ [c]) ∧ (∀ d ∈ rest.head?, d = ',') ∧ s = b ++ [c] ++ rest) ∨
      (∃ b c rest, IsBlanks b ∧ isBlank c = false ∧ c ≠ ',' ∧ s = b ++ c :: rest) ∨
      ∀ c ∈ s.head?, c = ',' := by
  obtain ⟨b, hb, hs⟩ := exists_trimLeft s
  have hstart := startsFilled_trimLeft s
  by_cases hother : ∀ d ∈ (trimLeft s).head?, d = ','
  · rcases List.eq_nil_or_concat b with rfl | ⟨b, c, rfl⟩
    · rw [List.nil_append] at hs
      exact Or.inr (Or.inr (hs ▸ hother))
    · rw [List.concat_eq_append] at hb hs
      exact Or.inl ⟨b, c, _, hb, hother, hs⟩
  · cases ht : trimLeft s with
    | nil => exact absurd (by simp [ht]) hother
    | cons c rest =>
      rw [ht] at hs hstart hother
      refine Or.inr (Or.inl ⟨b, c, rest, hb, hstart c rfl, ?_, hs⟩)
      rintro rfl
      exact hother (by simp)

/-- A blank before a list of texts does not count. -/
theorem itemsText_blank {c : Char} (hc : isBlank c = true) (h : FilledPieces s) : itemsText (c :: s) = itemsText s := by
  have hcons {b : List Char} (hb : IsBlanks b) : IsBlanks (c :: b) := List.forall_mem_cons.mpr ⟨hc, hb⟩
  rcases opening s with ⟨b, d, rest, hb, hrest, rfl⟩ | ⟨b, d, rest, hb, hd, hcomma, rfl⟩ | hs
  · rw [itemsText_blanks hb hrest]
    exact itemsText_blanks (b := c :: b) (hcons hb) hrest
  · rw [itemsText_filled hb hd hcomma]
    exact itemsText_filled (hcons hb) hd hcomma rest
  · cases s with
    | nil => exact absurd rfl (h [] List.mem_cons_self)
    | cons d s =>
      obtain rfl := hs d rfl
      exact absurd rfl (h [] List.mem_cons_self)

/-- But it does where the first piece would be empty without it. -/
theorem itemsText_single {c : Char} (hc : isBlank c = true) (h : FilledPieces (c :: s)) (hs : ¬FilledPieces s) :
    itemsText (c :: s) = c :: s := by
  have hcomma : c ≠ ',' := by
    rintro rfl
    exact absurd hc (by decide)
  refine itemsText_blanks (b := []) (List.forall_mem_singleton.mpr hc) fun d hd => ?_
  cases s with
  | nil => cases hd
  | cons e s =>
    obtain rfl := Option.some.inj hd
    by_contra he
    have htail := (filledPieces_append (t := [c, e]) (by simp [hcomma.symm, Ne.symm he]) (by simp) s).mp h
    exact hs ((filledPieces_append (t := [e]) (by simp [Ne.symm he]) (by simp) s).mpr htail)

theorem itemsText_eq (h : StartsFilled s) : itemsText s = s := by
  cases s with
  | nil => exact itemsText_bare (by simp)
  | cons c s =>
    by_cases hc : c = ','
    · exact itemsText_bare fun d hd => Option.some.inj hd ▸ hc
    · exact itemsText_filled (b := []) (fun _ hb => absurd hb List.not_mem_nil) (h c rfl) hc s

theorem filledPieces_itemsText (s : List Char) : FilledPieces (itemsText s) ↔ FilledPieces s := by
  rcases opening s with ⟨b, c, rest, hb, hrest, rfl⟩ | ⟨b, c, rest, hb, hc, hcomma, rfl⟩ | h
  · have hsingle : ',' ∉ [c] := fun h => comma_not_mem hb (List.mem_append_right _ h)
    rw [itemsText_blanks hb hrest, filledPieces_append (comma_not_mem hb) (by simp)]
    exact filledPieces_append hsingle (List.cons_ne_nil c []) rest
  · have hsingle : ',' ∉ [c] := by simpa using hcomma.symm
    have hbefore : ',' ∉ b ++ [c] := by simp [comma_not_mem hb, hcomma.symm]
    rw [itemsText_filled hb hc hcomma, List.append_cons, filledPieces_append hbefore (by simp)]
    exact filledPieces_append hsingle (List.cons_ne_nil c []) rest
  · rw [itemsText_bare h]

/-- **A list of texts is read if none of its pieces is empty.** -/
theorem texts?_eq (s : List Char) :
    Command.texts? s = if FilledPieces s then some (itemsText s) else none := by
  have hread (t : List Char) (ht : t = itemsText s) :
      (if ((pieces t).all fun p => !p.isEmpty) = true then some t else none) =
        if FilledPieces s then some (itemsText s) else none := by
    simp only [all_pieces_iff, ht, filledPieces_itemsText]
  have hsplit {b rest : List Char} (hb : IsBlanks b) (hrest : StartsFilled rest) :
      (b ++ rest).takeWhile isBlank = b ∧ trimLeft (b ++ rest) = rest := by
    refine ⟨?_, by rw [trimLeft_append hb, trimLeft_eq hrest]⟩
    rw [List.takeWhile_append_of_pos hb]
    cases rest with
    | nil => simp
    | cons c rest =>
      have hc : isBlank c = false := hrest c rfl
      simp [hc]
  rw [Command.texts?]
  apply hread
  rcases opening s with ⟨b, c, rest, hb, hrest, rfl⟩ | ⟨b, c, rest, hb, hc, hcomma, rfl⟩ | h
  · have hstart : StartsFilled rest := by
      intro d hd
      rw [hrest d hd]
      decide
    obtain ⟨htake, htrim⟩ := hsplit hb hstart
    rw [itemsText_blanks hb hrest, htake, htrim]
    cases rest with
    | nil => simp
    | cons d rest =>
      obtain rfl := hrest d rfl
      simp
  · have hstart : StartsFilled (c :: rest) := by
      intro d hd
      obtain rfl := Option.some.inj hd
      exact hc
    obtain ⟨-, htrim⟩ := hsplit hb hstart
    rw [itemsText_filled hb hc hcomma, htrim]
    split
    · rename_i heq
      cases heq
    · rename_i heq
      exact absurd (List.cons.inj heq).1 hcomma
    · rfl
  · rw [itemsText_bare h]
    cases s with
    | nil => rfl
    | cons c s =>
      obtain rfl := h c rfl
      rfl

end Text

namespace Command

/-! ## Numbers -/

/-- Decimal digits, one at least. -/
def IsNatural (x : List Char) : Prop := x ≠ [] ∧ ∀ c ∈ x, isDigit c = true

/-- A natural with or without a minus sign. -/
def IsInteger (x : List Char) : Prop := IsNatural x ∨ ∃ ds, x = '-' :: ds ∧ IsNatural ds

/-- An integer, which may be followed by a point, which may be followed by digits. -/
def IsDecimal (x : List Char) : Prop :=
  IsInteger x ∨ ∃ whole ds, x = whole ++ '.' :: ds ∧ IsInteger whole ∧ ∀ c ∈ ds, isDigit c = true

/-- A text does not go on with what may belong to a number or to a list of numbers. -/
def EndsNumber (rest : List Char) : Prop := ∀ c ∈ rest.head?, isDigit c = false ∧ c ≠ '.' ∧ c ≠ ','

section Numbers

variable {s x rest : List Char}

theorem EndsNumber.endsDigits (h : EndsNumber rest) : EndsDigits rest := fun c hc => (h c hc).1

theorem IsInteger.ne_nil (h : IsInteger x) : x ≠ [] := by
  rcases h with h | ⟨ds, rfl, -⟩
  · exact h.1
  · exact List.cons_ne_nil _ _

theorem IsNatural.startsFilled (h : IsNatural x) : StartsFilled x := by
  intro c hc
  exact isBlank_of_digit (h.2 c (List.mem_of_mem_head? hc))

theorem IsInteger.startsFilled (h : IsInteger x) : StartsFilled x := by
  rcases h with h | ⟨ds, rfl, -⟩
  · exact h.startsFilled
  · intro c hc
    obtain rfl := Option.some.inj hc
    decide

theorem IsInteger.no_comma (h : IsInteger x) : ',' ∉ x := by
  have hnatural {ds : List Char} (hds : IsNatural ds) : ',' ∉ ds := fun hc => absurd (hds.2 _ hc) (by decide)
  rcases h with h | ⟨ds, rfl, h⟩
  · exact hnatural h
  · simp [hnatural h]

/-- What is written of a natural is one. -/
theorem isNatural_digitsOf (n : Nat) : IsNatural (Decimal.digitsOf n) := by
  refine ⟨?_, fun c hc => ?_⟩
  · obtain ⟨c, cs, hcs, -⟩ := exists_digitsOf n
    rw [hcs]
    exact List.cons_ne_nil c cs
  · rw [isDigit, digit?_of_isDigit (isDigit_of_mem hc)]
    rfl

/-- What is written of an integer is one. -/
theorem isInteger_numeral (n : Int) : IsInteger (numeral n) := by
  rw [numeral_eq]
  by_cases hn : n < 0
  · rw [if_pos hn]
    exact Or.inr ⟨_, rfl, isNatural_digitsOf n.natAbs⟩
  · rw [if_neg hn]
    exact Or.inl (isNatural_digitsOf n.natAbs)

/-- Where it has no sign, it is a natural. -/
theorem isNatural_numeral {n : Int} (hn : 0 ≤ n) : IsNatural (numeral n) := by
  rw [numeral_eq, if_neg (by omega)]
  exact isNatural_digitsOf n.natAbs

/-- It does not end with a blank. -/
theorem endsFilled_numeral (n : Int) : EndsFilled (numeral n) := by
  intro c hc
  exact isBlank_of_mem_numeral (List.mem_of_mem_getLast? hc)

theorem natural?_append (h : IsNatural x) (hrest : EndsDigits rest) : natural? (x ++ rest) = some (x, rest) := by
  obtain ⟨hleading, hafter⟩ := leadingDigits_append h.2 hrest
  rw [natural?, hleading, hafter]
  obtain ⟨c, cs, rfl⟩ := List.exists_cons_of_ne_nil h.1
  rfl

theorem of_natural? (h : natural? s = some (x, rest)) : s = x ++ rest ∧ IsNatural x ∧ EndsDigits rest := by
  unfold natural? at h
  split at h
  · cases h
  · rename_i hne
    obtain ⟨rfl, rfl⟩ := Prod.mk.inj (Option.some.inj h)
    refine ⟨List.takeWhile_append_dropWhile.symm, ⟨hne, ?_⟩, ?_⟩
    · exact fun c hc => List.all_eq_true.mp List.all_takeWhile c hc
    · intro c hc
      have hdrop := List.head?_dropWhile_not isDigit s
      rw [afterDigits] at hc
      rw [Option.mem_def.mp hc] at hdrop
      simpa using hdrop

theorem integer?_append (h : IsInteger x) (hrest : EndsDigits rest) :
    integer? (x ++ rest) = some (x, rest) := by
  rcases h with h | ⟨ds, rfl, h⟩
  · rw [integer?.eq_2, natural?_append h hrest]
    intro t ht
    obtain ⟨c, cs, rfl⟩ := List.exists_cons_of_ne_nil h.1
    obtain ⟨rfl, -⟩ := List.cons.inj ht
    exact absurd (h.2 _ List.mem_cons_self) (by decide)
  · rw [List.cons_append, integer?, natural?_append h hrest]
    rfl

theorem of_integer? (h : integer? s = some (x, rest)) : s = x ++ rest ∧ IsInteger x ∧ EndsDigits rest := by
  unfold integer? at h
  split at h
  · obtain ⟨⟨ds, t⟩, hds, heq⟩ := Option.map_eq_some_iff.mp h
    obtain ⟨rfl, rfl⟩ := Prod.mk.inj heq
    obtain ⟨rfl, hnatural, hrest⟩ := of_natural? hds
    exact ⟨rfl, Or.inr ⟨ds, rfl, hnatural⟩, hrest⟩
  · obtain ⟨hs, hnatural, hrest⟩ := of_natural? h
    exact ⟨hs, Or.inl hnatural, hrest⟩

theorem decimal?_append (h : IsDecimal x) (hrest : EndsNumber rest) :
    decimal? (x ++ rest) = some (x, rest) := by
  rcases h with h | ⟨whole, ds, rfl, h, hds⟩
  · rw [decimal?, integer?_append h hrest.endsDigits]
    cases rest with
    | nil => rfl
    | cons c rest =>
      have hpoint : c ≠ '.' := (hrest c rfl).2.1
      simp only [Option.map_some]
      split
      · rename_i heq
        exact absurd (List.cons.inj heq).1 hpoint
      · rfl
  · have hpoint : EndsDigits ('.' :: (ds ++ rest)) := by
      intro c hc
      obtain rfl := Option.some.inj hc
      decide
    obtain ⟨hleading, hafter⟩ := leadingDigits_append hds hrest.endsDigits
    rw [decimal?, List.append_assoc, List.cons_append, integer?_append h hpoint]
    simp only [Option.map_some, hleading, hafter]

theorem of_decimal? (h : decimal? s = some (x, rest)) : s = x ++ rest ∧ IsDecimal x := by
  obtain ⟨⟨whole, t⟩, hwhole, heq⟩ := Option.map_eq_some_iff.mp h
  obtain ⟨rfl, hinteger, -⟩ := of_integer? hwhole
  dsimp only at heq
  split at heq
  · rename_i t
    obtain ⟨rfl, rfl⟩ := Prod.mk.inj heq
    have ht : leadingDigits t ++ afterDigits t = t := List.takeWhile_append_dropWhile
    refine ⟨by rw [List.append_assoc, List.cons_append, ht], Or.inr ⟨whole, leadingDigits t, rfl, hinteger, ?_⟩⟩
    exact fun c hc => List.all_eq_true.mp List.all_takeWhile c hc
  · obtain ⟨rfl, rfl⟩ := Prod.mk.inj heq
    exact ⟨rfl, Or.inl hinteger⟩

theorem IsDecimal.startsFilled (h : IsDecimal x) : StartsFilled x := by
  rcases h with h | ⟨whole, ds, rfl, h, -⟩
  · exact h.startsFilled
  · exact h.startsFilled.append h.ne_nil _

theorem IsDecimal.ne_nil (h : IsDecimal x) : x ≠ [] := by
  rcases h with h | ⟨whole, ds, rfl, h, -⟩
  · exact h.ne_nil
  · exact List.append_ne_nil_of_left_ne_nil h.ne_nil _

/-! ## Lists of integers -/

/-- Integers with commas between them, and with any blanks before each of them. -/
def IsIntegers (t : List Char) : Prop := ∀ p ∈ pieces t, IsInteger (trimLeft p)

theorem no_comma_of_trimLeft {p : List Char} (h : IsInteger (trimLeft p)) : ',' ∉ p := by
  obtain ⟨b, hb, hp⟩ := exists_trimLeft p
  rw [hp, List.mem_append, not_or]
  exact ⟨comma_not_mem hb, h.no_comma⟩

theorem isIntegers_single {p : List Char} (h : IsInteger (trimLeft p)) : IsIntegers p := by
  rw [IsIntegers, pieces_of_not_mem (no_comma_of_trimLeft h)]
  exact List.forall_mem_singleton.mpr h

theorem isIntegers_cons {p : List Char} (h : IsInteger (trimLeft p)) {t : List Char} (ht : IsIntegers t) :
    IsIntegers (p ++ ',' :: t) := by
  rw [IsIntegers, pieces_append (no_comma_of_trimLeft h)]
  exact List.forall_mem_cons.mpr ⟨h, ht⟩

/-- A list of integers is one integer, or an integer before a list. -/
theorem isIntegers_cases {t : List Char} (h : IsIntegers t) :
    IsInteger (trimLeft t) ∨ ∃ p u, t = p ++ ',' :: u ∧ IsInteger (trimLeft p) ∧ IsIntegers u := by
  rcases cut t with ht | ⟨p, u, hp, rfl⟩
  · rw [IsIntegers, pieces_of_not_mem ht] at h
    exact Or.inl (h t (List.mem_singleton_self t))
  · rw [IsIntegers, pieces_append hp] at h
    obtain ⟨hfirst, hrest⟩ := List.forall_mem_cons.mp h
    exact Or.inr ⟨p, u, rfl, hfirst, hrest⟩

theorem moreIntegers_stop (h : ∀ c ∈ s.head?, c ≠ ',') (fuel : Nat) : moreIntegers fuel s = ([], s) := by
  unfold moreIntegers
  split
  · exact absurd rfl (h ',' rfl)
  · rfl

/-- One more integer of a list. -/
theorem moreIntegers_step {p : List Char} (hp : IsInteger (trimLeft p)) (hrest : EndsDigits rest) (fuel : Nat) :
    moreIntegers (fuel + 1) (',' :: (p ++ rest)) =
      (',' :: (p ++ (moreIntegers fuel rest).1), (moreIntegers fuel rest).2) := by
  obtain ⟨b, hb, heq⟩ := exists_trimLeft p
  have hfilled : StartsFilled (trimLeft p ++ rest) := hp.startsFilled.append hp.ne_nil rest
  have hblanks : (p ++ rest).takeWhile isBlank = b := by
    rw [heq, List.append_assoc, List.takeWhile_append_of_pos hb]
    obtain ⟨c, cs, hc⟩ := List.exists_cons_of_ne_nil hp.ne_nil
    have hne : isBlank c = false := hp.startsFilled c (by rw [hc]; rfl)
    simp [hc, hne]
  rw [moreIntegers, trimLeft_append_of_ne_nil hp.ne_nil, integer?_append hp hrest]
  simp only [hblanks, List.cons_append, ← heq]

theorem moreIntegers_append (hrest : EndsNumber rest) : ∀ {fuel : Nat} {t : List Char}, IsIntegers t →
    t.length < fuel → moreIntegers fuel (',' :: (t ++ rest)) = (',' :: t, rest)
  | 0, t, _, h => nomatch h
  | fuel + 1, t, ht, hfuel => by
    rcases isIntegers_cases ht with ht | ⟨p, u, rfl, hp, hu⟩
    · rw [moreIntegers_step ht hrest.endsDigits, moreIntegers_stop fun c hc => (hrest c hc).2.2]
      simp
    · have hcomma : EndsDigits (',' :: (u ++ rest)) := by
        intro c hc
        obtain rfl := Option.some.inj hc
        decide
      have hlength : u.length < fuel := by
        rw [List.length_append, List.length_cons] at hfuel
        omega
      rw [List.append_assoc, List.cons_append, moreIntegers_step hp hcomma, moreIntegers_append hrest hu hlength]

/-- The further integers of a list are a list with a comma before it, or nothing. -/
theorem of_moreIntegers : ∀ (fuel : Nat) (s : List Char),
    s = (moreIntegers fuel s).1 ++ (moreIntegers fuel s).2 ∧
      ((moreIntegers fuel s).1 = [] ∨ ∃ t, (moreIntegers fuel s).1 = ',' :: t ∧ IsIntegers t)
  | 0, s => ⟨rfl, Or.inl rfl⟩
  | fuel + 1, s => by
    by_cases hcomma : ∃ t, s = ',' :: t
    · obtain ⟨t, rfl⟩ := hcomma
      cases hn : integer? (trimLeft t) with
      | none =>
        simp [moreIntegers, hn]
      | some r =>
        obtain ⟨n, u⟩ := r
        obtain ⟨htrim, hinteger, hdigits⟩ := of_integer? hn
        obtain ⟨b, hb, ht⟩ := exists_trimLeft t
        have hfirst : trimLeft (b ++ n) = n := by rw [trimLeft_append hb, trimLeft_eq hinteger.startsFilled]
        rw [htrim, ← List.append_assoc] at ht
        rw [← hfirst] at hinteger
        obtain ⟨hu, hmore⟩ := of_moreIntegers fuel u
        rw [ht, moreIntegers_step hinteger hdigits]
        refine ⟨by rw [List.cons_append, List.append_assoc _ _ (moreIntegers fuel u).2, ← hu], Or.inr ⟨_, rfl, ?_⟩⟩
        rcases hmore with hmore | ⟨t, hmore, hlist⟩
        · rw [hmore, List.append_nil]
          exact isIntegers_single hinteger
        · rw [hmore]
          exact isIntegers_cons hinteger hlist
    · rw [moreIntegers_stop]
      · exact ⟨rfl, Or.inl rfl⟩
      · rintro c hc rfl
        cases s with
        | nil => cases hc
        | cons d s =>
          obtain rfl := Option.some.inj hc
          exact hcomma ⟨s, rfl⟩

end Numbers

/-! ## Operands -/

namespace Operand

/-- What may follow a keyword: for a number blanks and then the number, and for a list of texts anything without
an empty piece. -/
def Takes : Operand → List Char → Prop
  | natural, t => IsNatural (trimLeft t)
  | integer, t => IsInteger (trimLeft t)
  | decimal, t => IsDecimal (trimLeft t)
  | integers, t => IsIntegers t
  | texts, t => FilledPieces t

/-- The operand in what follows a keyword. -/
def within : Operand → List Char → List Char
  | texts, t => itemsText t
  | _, t => trimLeft t

/-- What may follow an operand: nothing for a list of texts, which is the last. -/
def Before : Operand → List Char → Prop
  | texts, rest => rest = []
  | _, rest => EndsNumber rest

variable {s t x rest : List Char}

/-- An operand is read to its end. -/
theorem read?_append : ∀ {o : Operand}, o.Takes t → o.Before rest → o.read? (t ++ rest) = some (o.within t, rest)
  | natural, ht, hrest => by
    have h : IsNatural (trimLeft t) := ht
    rw [read?, trimLeft_append_of_ne_nil h.1, natural?_append h hrest.endsDigits]
    rfl
  | integer, ht, hrest => by
    have h : IsInteger (trimLeft t) := ht
    rw [read?, trimLeft_append_of_ne_nil h.ne_nil, integer?_append h hrest.endsDigits]
    rfl
  | decimal, ht, hrest => by
    have h : IsDecimal (trimLeft t) := ht
    rw [read?, trimLeft_append_of_ne_nil h.ne_nil, decimal?_append h hrest]
    rfl
  | integers, ht, hrest => by
    rcases isIntegers_cases ht with h | ⟨p, u, rfl, hp, hu⟩
    · rw [read?, trimLeft_append_of_ne_nil h.ne_nil, integers?, integer?_append h hrest.endsDigits]
      simp only [Option.map_some, moreIntegers_stop fun c hc => (hrest c hc).2.2, List.append_nil]
      rfl
    · have hcomma : EndsDigits (',' :: (u ++ rest)) := by
        intro c hc
        obtain rfl := Option.some.inj hc
        decide
      have hlength : u.length < (',' :: (u ++ rest)).length := by
        rw [List.length_cons, List.length_append]
        omega
      have hmore := moreIntegers_append hrest hu hlength
      rw [read?, List.append_assoc, List.cons_append, trimLeft_append_of_ne_nil hp.ne_nil, integers?,
        integer?_append hp hcomma]
      simp only [Option.map_some, hmore]
      rw [within, trimLeft_append_of_ne_nil hp.ne_nil]
      nofun
  | texts, ht, hrest => by
    have h : FilledPieces t := ht
    obtain rfl : rest = [] := hrest
    rw [read?, List.append_nil, texts?_eq, if_pos h]
    rfl

/-- What stands before a number are the blanks that are left out. -/
theorem exists_before (hs : trimLeft s = x ++ rest) (hx : StartsFilled x) :
    ∃ t, s = t ++ rest ∧ trimLeft t = x := by
  obtain ⟨b, hb, heq⟩ := exists_trimLeft s
  refine ⟨b ++ x, by rw [heq, hs, List.append_assoc], ?_⟩
  rw [trimLeft_append hb, trimLeft_eq hx]

/-- What an operand reads is what it takes. -/
theorem of_read? : ∀ {o : Operand}, o.read? s = some (x, rest) →
    ∃ t, s = t ++ rest ∧ o.Takes t ∧ o.within t = x ∧ (o = texts → rest = [])
  | natural, h => by
    obtain ⟨hs, hx, -⟩ := of_natural? h
    obtain ⟨t, rfl, rfl⟩ := exists_before hs hx.startsFilled
    exact ⟨t, rfl, hx, rfl, nofun⟩
  | integer, h => by
    obtain ⟨hs, hx, -⟩ := of_integer? h
    obtain ⟨t, rfl, rfl⟩ := exists_before hs hx.startsFilled
    exact ⟨t, rfl, hx, rfl, nofun⟩
  | decimal, h => by
    obtain ⟨hs, hx⟩ := of_decimal? h
    obtain ⟨t, rfl, rfl⟩ := exists_before hs hx.startsFilled
    exact ⟨t, rfl, hx, rfl, nofun⟩
  | integers, h => by
    obtain ⟨⟨n, u⟩, hn, heq⟩ := Option.map_eq_some_iff.mp h
    obtain ⟨hs, hinteger, -⟩ := of_integer? hn
    obtain ⟨hu, hmore⟩ := of_moreIntegers u.length u
    obtain ⟨rfl, rfl⟩ := Prod.mk.inj heq
    rw [hu] at hs
    obtain ⟨p, rfl, rfl⟩ := exists_before hs hinteger.startsFilled
    refine ⟨p ++ (moreIntegers u.length u).1, (List.append_assoc _ _ _).symm, ?_,
      trimLeft_append_of_ne_nil hinteger.ne_nil _, nofun⟩
    rcases hmore with hmore | ⟨t, hmore, hlist⟩
    · rw [hmore, List.append_nil]
      exact isIntegers_single hinteger
    · rw [hmore]
      exact isIntegers_cons hinteger hlist
  | texts, h => by
    obtain ⟨t, ht, heq⟩ := Option.map_eq_some_iff.mp h
    obtain ⟨rfl, rfl⟩ := Prod.mk.inj heq
    rw [texts?_eq] at ht
    split at ht
    · rename_i hfilled
      exact ⟨s, (List.append_nil s).symm, hfilled, Option.some.inj ht, fun _ => rfl⟩
    · cases ht

end Operand

end Command

end RecordForge
