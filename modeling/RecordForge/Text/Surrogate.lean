/-!
# Halves of surrogate pairs

Some notations write a character beyond 65535 as a pair of codes from 55296 to 57343, and let half of such
a pair stand alone. Half of a pair is no character, and no file can hold it. So what is written with one is
kept in pieces: it can be shown and compared, but it is no text, and nothing is named by it.

* `Piece`: a character or half of a pair.
* `chars?`: the characters of pieces without halves. **`chars?_eq_some`**: they determine the pieces.
-/

namespace RecordForge.Text

/-- Whether a code is half of a pair. -/
def isHalf (n : Nat) : Bool := 0xD800 ≤ n && n ≤ 0xDFFF

/-- A character or half of a pair. -/
inductive Piece where
  | char (c : Char)
  | half (code : Nat)
  deriving DecidableEq

namespace Piece

/-- The piece of a code. -/
def ofCode (n : Nat) : Piece := if isHalf n then .half n else .char (Char.ofNat n)

/-- The character that a piece is. -/
def char? : Piece → Option Char
  | .char c => some c
  | .half _ => none

end Piece

/-- The characters of pieces, if none of these is half of a pair. -/
def chars? : List Piece → Option (List Char)
  | [] => some []
  | .char c :: rest => (chars? rest).map (c :: ·)
  | .half _ :: _ => none

/-- Pieces have characters exactly if they are these, one by one. -/
theorem chars?_eq_some : ∀ {pieces : List Piece} {cs : List Char},
    chars? pieces = some cs ↔ pieces = cs.map .char
  | [], cs => by cases cs <;> simp [chars?]
  | .half n :: rest, cs => by cases cs <;> simp [chars?]
  | .char c :: rest, [] => by simp [chars?]
  | .char c :: rest, d :: cs => by
    simp only [chars?, Option.map_eq_some_iff, chars?_eq_some, List.map_cons, List.cons.injEq,
      Piece.char.injEq]
    constructor
    · rintro ⟨_, h, rfl, rfl⟩
      exact ⟨rfl, h⟩
    · rintro ⟨rfl, h⟩
      exact ⟨cs, h, rfl, rfl⟩

end RecordForge.Text
