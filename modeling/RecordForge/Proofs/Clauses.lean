import RecordForge.Proofs.Numerals
import RecordForge.Dialog.Session

/-!
# Commands as they are entered

A command can be entered in one plain way: the word of its mode, and then its clauses in the order of the grammar,
with one blank before and after each keyword, and one after each comma of a list.

* `StartsFilled`, `EndsFilled`: texts without a blank at an end.
* `Text.joined`, `pieces_joined`, **`items_joined`**: a list as it is entered, and that it is cut into its items again.
* `Clause.entered`, `Clause.Apart`: a clause as it is entered, and clauses that cannot be mistaken for each other.
* `ReadsEach`: every operand is read to its end where it stands.
-/

namespace RecordForge

open Text

/-! ## Blanks around a text -/

namespace Text

/-- A text does not begin with a blank. -/
def StartsFilled (s : List Char) : Prop := ∀ c ∈ s.head?, isBlank c = false

/-- A text does not end with a blank. -/
def EndsFilled (s : List Char) : Prop := ∀ c ∈ s.getLast?, isBlank c = false

instance (s : List Char) : Decidable (StartsFilled s) :=
  Option.decidableForallMem s.head?

instance (s : List Char) : Decidable (EndsFilled s) :=
  Option.decidableForallMem s.getLast?

variable {s t : List Char}

theorem trimLeft_eq (h : StartsFilled s) : trimLeft s = s := by
  cases s with
  | nil => rfl
  | cons c s =>
    have hc : isBlank c = false := h c rfl
    rw [trimLeft, List.dropWhile_cons, hc]
    rfl

/-- One blank before a text is dropped. -/
theorem trimLeft_blank (h : StartsFilled s) : trimLeft (' ' :: s) = s := trimLeft_eq h

/-- A text without blanks at its ends stays as it is. -/
theorem trim_eq (hstart : StartsFilled s) (hend : EndsFilled s) : trim s = s := by
  have hreverse : StartsFilled s.reverse := by
    intro c hc
    rw [List.head?_reverse] at hc
    exact hend c hc
  rw [trim, trimRight, trimLeft_eq hstart]
  show (trimLeft s.reverse).reverse = s
  rw [trimLeft_eq hreverse, List.reverse_reverse]

theorem StartsFilled.append (h : StartsFilled s) (hne : s ≠ []) (t : List Char) : StartsFilled (s ++ t) := by
  intro c hc
  rw [List.head?_append, List.head?_eq_some_head hne] at hc
  exact h c (by rw [List.head?_eq_some_head hne]; exact hc)

theorem EndsFilled.append (h : EndsFilled t) (hne : t ≠ []) (s : List Char) : EndsFilled (s ++ t) := by
  intro c hc
  rw [List.getLast?_append, List.getLast?_eq_some_getLast hne] at hc
  exact h c (by rw [List.getLast?_eq_some_getLast hne]; exact hc)

/-! ## Lists -/

/-- Items of a list as they are entered after other ones: each with a comma and a blank before it. -/
def following (xs : List (List Char)) : List Char := xs.flatMap fun x => ',' :: ' ' :: x

/-- A list of items as it is entered: a comma and a blank between every two. -/
def joined : List (List Char) → List Char
  | [] => []
  | x :: xs => x ++ following xs

theorem joined_cons_cons (x y : List Char) (xs : List (List Char)) :
    joined (x :: y :: xs) = x ++ ',' :: ' ' :: joined (y :: xs) := rfl

theorem joined_eq_intercalate : ∀ xs : List (List Char), joined xs = List.intercalate [',', ' '] xs
  | [] => rfl
  | [x] => by simp [joined, following]
  | x :: y :: xs => by
    rw [List.intercalate_cons_cons, ← joined_eq_intercalate (y :: xs), joined_cons_cons]
    simp

theorem joined_ne_nil {xs : List (List Char)} (hne : xs ≠ []) (hfilled : ∀ x ∈ xs, x ≠ []) : joined xs ≠ [] := by
  obtain ⟨x, xs, rfl⟩ := List.exists_cons_of_ne_nil hne
  exact List.append_ne_nil_of_left_ne_nil (hfilled x List.mem_cons_self) _

/-- A list ends as its last item does. -/
theorem endsFilled_joined : ∀ {xs : List (List Char)}, (∀ x ∈ xs, x ≠ []) →
    (∀ x ∈ xs.getLast?, EndsFilled x) → EndsFilled (joined xs)
  | [], _, _ => by
    intro c hc
    cases hc
  | [x], _, hlast => by
    rw [joined, following, List.flatMap_nil, List.append_nil]
    exact hlast x rfl
  | x :: y :: xs, hne, hlast => by
    have hrest := (List.forall_mem_cons.mp hne).2
    have ih : EndsFilled (joined (y :: xs)) := endsFilled_joined hrest hlast
    rw [joined_cons_cons, List.append_cons, List.append_cons]
    exact ih.append (joined_ne_nil (List.cons_ne_nil y xs) hrest) _

theorem pieces_of_not_mem (h : ',' ∉ s) : pieces s = [s] := by
  induction s with
  | nil => rfl
  | cons c s ih =>
    obtain ⟨hc, hs⟩ := not_or.mp (mt List.mem_cons.mpr h)
    rw [pieces, if_neg (Ne.symm hc), ih hs]

theorem pieces_append (h : ',' ∉ s) (t : List Char) : pieces (s ++ ',' :: t) = s :: pieces t := by
  induction s with
  | nil => rfl
  | cons c s ih =>
    obtain ⟨hc, hs⟩ := not_or.mp (mt List.mem_cons.mpr h)
    rw [List.cons_append, pieces, if_neg (Ne.symm hc), ih hs]

/-- A list is cut at its commas, and the blanks after them stay for now. -/
theorem pieces_joined : ∀ {x : List Char} {xs : List (List Char)}, (∀ y ∈ x :: xs, ',' ∉ y) →
    pieces (joined (x :: xs)) = x :: xs.map (' ' :: ·)
  | x, [], h => by
    rw [joined, following, List.flatMap_nil, List.append_nil]
    exact pieces_of_not_mem (h x List.mem_cons_self)
  | x, y :: xs, h => by
    obtain ⟨hx, hrest⟩ := List.forall_mem_cons.mp h
    have hblank : ∀ z ∈ (' ' :: y) :: xs, ',' ∉ z := by
      rw [List.forall_mem_cons] at hrest ⊢
      exact ⟨by simpa using hrest.1, hrest.2⟩
    have ih := pieces_joined hblank
    rw [joined, following, List.flatMap_cons, List.cons_append, pieces_append hx, List.map_cons]
    exact congrArg _ ih

/-- After a keyword a list has a blank before each of its items. -/
theorem pieces_blank_joined {xs : List (List Char)} (hne : xs ≠ []) (hcomma : ∀ x ∈ xs, ',' ∉ x) :
    pieces (' ' :: joined xs) = xs.map (' ' :: ·) := by
  obtain ⟨x, xs, rfl⟩ := List.exists_cons_of_ne_nil hne
  have hblank : ∀ y ∈ (' ' :: x) :: xs, ',' ∉ y := by
    rw [List.forall_mem_cons] at hcomma ⊢
    exact ⟨by simpa using hcomma.1, hcomma.2⟩
  exact pieces_joined hblank

/-- **A list that is entered is cut into its items again**, if none of them has a comma or begins with a
blank. -/
theorem items_joined {xs : List (List Char)} (hne : xs ≠ []) (hcomma : ∀ x ∈ xs, ',' ∉ x)
    (hstart : ∀ x ∈ xs, StartsFilled x) : items (joined xs) = xs := by
  obtain ⟨x, xs, rfl⟩ := List.exists_cons_of_ne_nil hne
  have htrim : xs.map (trimLeft ∘ (' ' :: ·)) = xs := by
    refine (List.map_congr_left ?_).trans (List.map_id xs)
    intro y hy
    exact trimLeft_blank (hstart y (List.mem_cons_of_mem x hy))
  rw [items, pieces_joined hcomma]
  simp only [List.map_map, htrim]

end Text

namespace Command

/-! ## Clauses -/

/-- A clause as it is entered. -/
def Clause.entered (c : Clause) (x : List Char) : List Char := ' ' :: (c.keyword.toList ++ ' ' :: x)

/-- Clauses with their operands as they are entered. -/
def enteredAll (es : List (Clause × List Char)) : List Char := es.flatMap fun e => e.1.entered e.2

/-- The keywords of some clauses begin with different letters, and none with a blank. -/
structure Clause.Apart (cs : List Clause) : Prop where
  nodup : (cs.map fun c => c.keyword.toList.head?).Nodup
  filled : ∀ c ∈ cs, ∃ k ks, c.keyword.toList = k :: ks ∧ isBlank k = false

/-- Every operand is read to its end where it stands. -/
inductive ReadsEach : List (Clause × List Char) → Prop where
  | nil : ReadsEach []
  | cons {c : Clause} {x : List Char} {es : List (Clause × List Char)} :
    c.operand.read? (' ' :: (x ++ enteredAll es)) = some (x, enteredAll es) → ReadsEach es →
      ReadsEach ((c, x) :: es)

/-- Clauses end as the last operand does. -/
theorem endsFilled_enteredAll {es : List (Clause × List Char)}
    (h : ∃ e ∈ es.getLast?, e.2 ≠ [] ∧ EndsFilled e.2) (s : List Char) : EndsFilled (s ++ enteredAll es) := by
  obtain ⟨e, he, hfilled, hend⟩ := h
  obtain ⟨es, rfl⟩ := List.getLast?_eq_some_iff.mp he
  have htext : s ++ enteredAll (es ++ [e]) =
      (s ++ enteredAll es ++ ' ' :: (e.1.keyword.toList ++ [' '])) ++ e.2 := by
    simp [enteredAll, Clause.entered]
  rw [htext]
  exact hend.append hfilled _

end Command

end RecordForge
