import RecordForge.Text.Blank

/-!
# Words at the start of a text, and lists of items

* `after?`: what follows a word that a text starts with.
* `pieces`: the pieces of a text between its commas.
* `items`: the items of a list typed with commas, where blanks after a comma do not count.
-/

namespace RecordForge.Text

/-- What follows a word that a text starts with. -/
def after? : (word s : List Char) → Option (List Char)
  | [], s => some s
  | _ :: _, [] => none
  | w :: word, c :: s => if w = c then after? word s else none

/-- A text starts with a word exactly when it is that word and what follows it. -/
theorem after?_eq_some_iff {word s rest : List Char} :
    after? word s = some rest ↔ s = word ++ rest := by
  induction word generalizing s with
  | nil => simp [after?]
  | cons w word ih =>
    cases s with
    | nil => simp [after?]
    | cons c s =>
      simp only [after?]
      split
      · rename_i h
        simp [ih, h]
      · rename_i h
        simp only [List.cons_append, List.cons.injEq]
        exact ⟨nofun, fun h' => absurd h'.1.symm h⟩

/-- The pieces of a text between its commas. -/
def pieces : List Char → List (List Char)
  | [] => [[]]
  | c :: s =>
    if c = ',' then [] :: pieces s
    else match pieces s with
      | [] => [[c]]
      | p :: ps => (c :: p) :: ps

/-- The items of a list: its pieces, without the blanks that follow a comma. -/
def items (s : List Char) : List (List Char) :=
  match pieces s with
  | [] => []
  | p :: ps => p :: ps.map trimLeft

/-- There is one piece more than there are commas. -/
theorem length_pieces (s : List Char) : (pieces s).length = s.count ',' + 1 := by
  induction s with
  | nil => rfl
  | cons c s ih =>
    simp only [pieces]
    split
    · rename_i h
      simp [h, ih]
    · rename_i h
      split
      · rename_i hp
        simp [hp] at ih
      · rename_i p ps hp
        rw [hp] at ih
        simp only [List.length_cons] at *
        rw [List.count_cons_of_ne (by simpa using h)]
        omega

end RecordForge.Text
