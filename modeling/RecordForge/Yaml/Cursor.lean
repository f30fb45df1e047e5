/-!
# A place in a text

Indentation decides what belongs together in YAML, so a reader has to know the column it has come to.

* `Cursor`: what is left of a text, and where it starts.
* `peek`, `forward`, `span`, `lineBreak?`: looking ahead and moving on.
* `isBreak`, `isGap`: line ends, and what may follow a sign.

The end of a text is seen as the character zero, which no readable text holds.
-/

namespace RecordForge.Yaml

/-- The characters that end a line, once line ends are unified. -/
def isBreak (c : Char) : Bool := c == '\n' || c == '\u0085' || c == '\u2028' || c == '\u2029'

/-- A line end, or the end of the text. -/
def isBreakOrEnd (c : Char) : Bool := isBreak c || c == '\x00'

/-- A space, a line end or the end of the text. -/
def isSpaceOrEnd (c : Char) : Bool := c == ' ' || isBreakOrEnd c

/-- What may follow a sign that stands alone: white space, a line end or the end of the text. -/
def isGap (c : Char) : Bool := c == '\t' || isSpaceOrEnd c

/-- Spaces and tabs. -/
def isWhite (c : Char) : Bool := c == ' ' || c == '\t'

/-- What is left of a text, and where it starts. -/
structure Cursor where
  rest : List Char
  index : Nat := 0
  line : Nat := 0
  column : Nat := 0

namespace Cursor

/-- The next character. -/
def peek (c : Cursor) : Char := c.rest.headD '\x00'

/-- The character some places on. -/
def peekAt (c : Cursor) (n : Nat) : Char := (c.rest.drop n).headD '\x00'

/-- The cursor after one character. -/
def step (c : Cursor) : Cursor :=
  match c.rest with
  | [] => c
  | x :: rest =>
    if isBreak x then ⟨rest, c.index + 1, c.line + 1, 0⟩
    else ⟨rest, c.index + 1, c.line, if x = '\uFEFF' then c.column else c.column + 1⟩

/-- The cursor after a number of characters. -/
def forward (c : Cursor) : Nat → Cursor
  | 0 => c
  | n + 1 => c.step.forward n

/-- The longest run of characters of a class, and the cursor after it. -/
def span (c : Cursor) (p : Char → Bool) : List Char × Cursor :=
  let taken := c.rest.takeWhile p
  (taken, c.forward taken.length)

/-- The cursor after the longest run of characters of a class. -/
def skip (c : Cursor) (p : Char → Bool) : Cursor := (c.span p).2

/-- The cursor after spaces. -/
def skipSpaces (c : Cursor) : Cursor := c.skip (· == ' ')

/-- The cursor after the rest of a line, if a comment starts here. -/
def skipComment (c : Cursor) : Cursor := if c.peek = '#' then c.skip fun x => !isBreak x else c

/-- The line end that the text goes on with, and the cursor after it. Most line ends count as line
feeds. -/
def lineBreak? (c : Cursor) : Option (Char × Cursor) :=
  let x := c.peek
  if isBreak x then some (if x = '\u0085' then '\n' else x, c.step) else none

/-- Whether the text goes on with three equal characters and a gap. -/
def atMark (c : Cursor) (x : Char) : Bool :=
  c.rest.take 3 == [x, x, x] && isGap (c.peekAt 3)

/-- Whether the text goes on with the mark of a document's start or end. -/
def atDocumentMark (c : Cursor) : Bool := c.atMark '-' || c.atMark '.'

/-- A bound for the number of steps that can be made. -/
def fuel (c : Cursor) : Nat := c.rest.length + 1

end Cursor

end RecordForge.Yaml
