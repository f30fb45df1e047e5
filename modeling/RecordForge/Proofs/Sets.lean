import Mathlib.Data.List.TakeWhile
import RecordForge.Proofs.Misreadings

/-!
# The items of a set of texts

A grammar and the checks after it cut a set of texts at the same commas, but they disagree about blanks. For the
grammar the blanks after a comma may belong to the item, so that an item may consist of them. The checks leave them
out, and such an item is then empty. The first item stands after no comma and keeps what the grammar gives it.

* `exists_pieces`, `comma_not_mem_pieces`, `trimLeft_eq_nil_iff`: pieces of a text, and what is left of one.
* `startsFilled_or_blank`: how the first piece of a set begins.
* `texts_of_items`: the clause that a set of texts was read by.
* **`set_items_of_answer`**: the items of a set that is accepted, and which of them may be empty.
-/

namespace RecordForge

open Text

namespace Text

variable {s : List Char}

theorem exists_pieces (s : List Char) : ∃ first rest, pieces s = first :: rest := by
  apply List.exists_cons_of_ne_nil
  intro hnil
  have hlength := length_pieces s
  rw [hnil] at hlength
  cases hlength

theorem comma_not_mem_pieces (s : List Char) : ∀ p ∈ pieces s, ',' ∉ p := by
  induction s using pieces_induction with
  | one p hp =>
    rw [pieces_of_not_mem hp]
    exact List.forall_mem_singleton.mpr hp
  | more p t hp ih =>
    rw [pieces_append hp]
    exact List.forall_mem_cons.mpr ⟨hp, ih⟩

/-- Nothing is left of blanks only. -/
theorem trimLeft_eq_nil_iff : trimLeft s = [] ↔ IsBlanks s := by
  rw [trimLeft, List.dropWhile_eq_nil_iff]
  rfl

/-- Where blanks are left out, a text is none or begins with something else. -/
theorem filled_trimLeft_iff : trimLeft s ≠ [] ∧ StartsFilled (trimLeft s) ↔ ¬IsBlanks s := by
  rw [and_iff_left (startsFilled_trimLeft s), ne_eq, trimLeft_eq_nil_iff]

/-- The first piece of a set does not begin with a blank, or it is one. -/
theorem startsFilled_or_blank {first : List Char} {rest : List (List Char)} (hs : FilledPieces s)
    (h : pieces (itemsText s) = first :: rest) : StartsFilled first ∨ ∃ c, isBlank c = true ∧ first = [c] := by
  rcases opening s with ⟨b, c, t, hb, ht, rfl⟩ | ⟨b, c, t, hb, hc, hcomma, rfl⟩ | hbare
  · -- nothing but blanks stands before the first comma, and one of them stays
    have hblank : isBlank c = true := hb c (List.mem_append_right b (List.mem_singleton_self c))
    have hsingle : ',' ∉ [c] := comma_not_mem (List.forall_mem_singleton.mpr hblank)
    rw [itemsText_blanks hb ht] at h
    refine Or.inr ⟨c, hblank, ?_⟩
    cases t with
    | nil =>
      rw [pieces_of_not_mem hsingle] at h
      exact (List.cons.inj h).1.symm
    | cons d t =>
      obtain rfl := ht d rfl
      have hpieces : pieces (c :: ',' :: t) = [c] :: pieces t := pieces_append hsingle t
      rw [hpieces] at h
      exact (List.cons.inj h).1.symm
  · rw [itemsText_filled hb hc hcomma, pieces, if_neg hcomma] at h
    obtain ⟨p, ps, hps⟩ := exists_pieces t
    rw [hps] at h
    refine Or.inl fun a ha => ?_
    rw [← (List.cons.inj h).1] at ha
    obtain rfl := Option.some.inj ha
    exact hc
  · -- the first piece would be empty
    have hempty : [] ∈ pieces s := by
      cases s with
      | nil => exact List.mem_singleton_self []
      | cons c s =>
        rw [hbare c rfl]
        exact List.mem_cons_self
    exact absurd rfl (hs [] hempty)

end Text

namespace Command

section

variable {g : Grammar} {d : Descriptor} {p : Parts} {x : List Char}

/-- A set of a text field is what is read after the keyword: a text without an empty piece, and without the blanks
before it. -/
theorem texts_of_items (hg : grammar? d.kind = some g) (hkind : d.kind = .string ∨ d.kind = .enum) {line : List Char}
    (hread : g.read? line = some p) (hx : p.operand? .items = some x) : ∃ t, FilledPieces t ∧ x = itemsText t := by
  have htexts : ∀ c ∈ g.clauses, c.part = .items → c.operand = .texts := by
    rcases hkind with hkind | hkind
    all_goals
      rw [hkind] at hg
      obtain rfl := Option.some.inj hg
      decide
  obtain ⟨c, hc, hpart, t, rest, hoperand⟩ := clause_of_read? hread hx
  rw [htexts c hc hpart] at hoperand
  obtain ⟨u, -, htakes, hwithin, -⟩ := Operand.of_read? hoperand
  exact ⟨u, htakes, hwithin.symm⟩

/-- The checks make one text of each item. -/
theorem items_of_strategyOf (hkind : d.kind = .string ∨ d.kind = .enum) (hx : p.operand? .items = some x)
    {s : Strategy} (h : strategyOf d p = .ok s) : s.items = some ((textItems x).map .text) := by
  rcases hkind with hkind | hkind
  · rw [(strategyOf_string hkind).2] at h
    simp only [stringStrategy, hx] at h
    obtain rfl := Except.ok.inj h
    rfl
  · rw [(strategyOf_enum hkind).2] at h
    simp only [enumStrategy, hx] at h
    split at h
    · obtain rfl := Except.ok.inj h
      rfl
    · cases h

end

end Command

namespace Dialog

open Command

/-- **The items of a set that is accepted**, for a string or an enum. There is one more of them than commas in the
clause, and none has a comma. The first one is not empty, and it begins with no blank unless it is a single one. The
others begin with no blank, and such an item is empty exactly if there is nothing but blanks between its commas. So
the items are what the grammar asks for, not empty and without a blank before them, exactly if no piece of the clause
is blank. -/
theorem set_items_of_answer {answer name : String} {d : Descriptor} {g : Grammar} {s : Strategy} {p : Parts}
    {x : List Char} (hg : grammar? d.kind = some g) (hkind : d.kind = .string ∨ d.kind = .enum)
    (haccept : judgeStrategy g name d (trimmed answer) = .accept s)
    (hread : g.read? (trimmed answer).toList = some p) (hx : p.operand? .items = some x) :
    ∃ first rest, pieces x = first :: rest ∧ items x = first :: rest.map trimLeft ∧
      s.items = some ((items x).map fun i => .text (String.ofList i)) ∧
      (items x).length = x.count ',' + 1 ∧
      (∀ i ∈ items x, ',' ∉ i) ∧
      (first ≠ [] ∧ (StartsFilled first ∨ ∃ c, isBlank c = true ∧ first = [c])) ∧
      (∀ q ∈ rest, StartsFilled (trimLeft q) ∧ (trimLeft q = [] ↔ IsBlanks q)) ∧
      ((∀ i ∈ items x, i ≠ [] ∧ StartsFilled i) ↔ ∀ q ∈ pieces x, ¬IsBlanks q) := by
  obtain ⟨t, hfilled, rfl⟩ := texts_of_items hg hkind hread hx
  obtain ⟨first, rest, hpieces⟩ := exists_pieces (itemsText t)
  have hitems : items (itemsText t) = first :: rest.map trimLeft := by rw [items, hpieces]
  have hstrategy : strategyOf d p = .ok s := by
    have hline := readStrategy_of_accept haccept
    rw [readStrategy, hread] at hline
    exact hline
  have hfirst : first ≠ [] := by
    apply (filledPieces_itemsText t).mpr hfilled
    rw [hpieces]
    exact List.mem_cons_self
  have hopen := startsFilled_or_blank hfilled hpieces
  refine ⟨first, rest, hpieces, hitems, ?_, ?_, ?_, ⟨hfirst, hopen⟩, ?_, ?_⟩
  · rw [items_of_strategyOf hkind hx hstrategy, textItems, List.map_map]
    rfl
  · rw [hitems, List.length_cons, List.length_map, ← length_pieces, hpieces, List.length_cons]
  · intro i hi
    rw [hitems] at hi
    have hno {q : List Char} (hq : q ∈ first :: rest) : ',' ∉ q := comma_not_mem_pieces _ q (hpieces ▸ hq)
    rcases List.mem_cons.mp hi with rfl | hi
    · exact hno List.mem_cons_self
    · obtain ⟨q, hq, rfl⟩ := List.mem_map.mp hi
      exact fun hcomma => hno (List.mem_cons_of_mem first hq) ((List.dropWhile_suffix isBlank).subset hcomma)
  · exact fun q _ => ⟨startsFilled_trimLeft q, trimLeft_eq_nil_iff⟩
  · -- the first item is blank exactly if it begins with a blank
    have hhead : first ≠ [] ∧ StartsFilled first ↔ ¬IsBlanks first := by
      rw [and_iff_right hfirst]
      constructor
      · intro hstart hblanks
        obtain ⟨c, cs, rfl⟩ := List.exists_cons_of_ne_nil hfirst
        exact absurd (hstart c rfl) (by simp [hblanks c List.mem_cons_self])
      · intro hblanks
        rcases hopen with hstart | ⟨c, hc, rfl⟩
        · exact hstart
        · exact absurd (by simpa [IsBlanks] using hc) hblanks
    rw [hitems, hpieces, List.forall_mem_cons, List.forall_mem_cons, hhead, List.forall_mem_map]
    simp only [filled_trimLeft_iff]

/-- In `in a, ,b` the blank between two commas is an item for the grammar, and an empty one for the checks. -/
theorem set_items_of_answer_blank :
    judgeStrategy stringGrammar "s" (.plain "s" .string) (trimmed "in a, ,b") =
      .accept { mode := .rand, items := some [.text "a", .text "", .text "b"] } ∧
    ¬∀ i ∈ items "a, ,b".toList, i ≠ [] ∧ StartsFilled i := by
  have haccept : judgeStrategy stringGrammar "s" (.plain "s" .string) (trimmed "in a, ,b") =
      .accept { mode := .rand, items := some [.text "a", .text "", .text "b"] } := rfl
  obtain ⟨first, rest, -, -, -, -, -, -, -, hall⟩ := set_items_of_answer (x := "a, ,b".toList)
    (p := ⟨none, [(.items, "a, ,b".toList)]⟩) (d := .plain "s" .string) rfl (Or.inl rfl) haccept (by decide) rfl
  refine ⟨haccept, fun h => ?_⟩
  exact hall.mp h [' '] (by decide) (List.forall_mem_singleton.mpr (by decide))

end Dialog

end RecordForge
