/-!
# Cutting a text into lines

Recorded answers and typed answers are cut into lines by different rules.

* `streamLines`: a stream ends a line at a line feed, a carriage return, or the two together.
* `recordLines`: a recorded file also ends a line at the vertical tab, the form feed, the file,
  group and record separators, the next-line character and the two Unicode separators.

Neither rule makes an empty last line out of a final line end.
-/

namespace RecordForge.Text

/-- A text in which every line end of a stream is one line feed. -/
def unifyNewlines : List Char → List Char
  | [] => []
  | '\r' :: '\n' :: s => '\n' :: unifyNewlines s
  | '\r' :: s => '\n' :: unifyNewlines s
  | c :: s => c :: unifyNewlines s

/-- The pieces of a text ended by a character of the class; a final end makes no empty piece. -/
def piecesEndedBy (ends : Char → Bool) : List Char → List (List Char)
  | [] => []
  | c :: s =>
    if ends c then [] :: piecesEndedBy ends s
    else match piecesEndedBy ends s with
      | [] => [[c]]
      | p :: ps => (c :: p) :: ps

/-- The characters that end a line of a recorded file, once line ends are unified. -/
def endsRecord (c : Char) : Bool :=
  c == '\n' || c == '\x0b' || c == '\x0c' || c == '\x1c' || c == '\x1d' || c == '\x1e' ||
    c == '\u0085' || c == '\u2028' || c == '\u2029'

/-- The lines of a stream. -/
def streamLines (s : List Char) : List (List Char) :=
  piecesEndedBy (· == '\n') (unifyNewlines s)

/-- The lines of a recorded file. -/
def recordLines (s : List Char) : List (List Char) :=
  piecesEndedBy endsRecord (unifyNewlines s)

end RecordForge.Text
