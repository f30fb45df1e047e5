/-!
# Blank characters

Answers are trimmed before they are read, and clauses of a command may be separated by any blank.
A blank is a character with the Unicode property `White_Space`, or one of the four separators
`U+001C` to `U+001F`.

* `isBlank`: the class of blanks.
* `trim`: a text without the blanks at its two ends.
-/

namespace RecordForge.Text

/-- The blank characters: Unicode white space and the four control separators. -/
def isBlank (c : Char) : Bool :=
  let n := c.toNat
  (0x09 ≤ n && n ≤ 0x0D) || (0x1C ≤ n && n ≤ 0x20) || n == 0x85 || n == 0xA0 || n == 0x1680 ||
    (0x2000 ≤ n && n ≤ 0x200A) || n == 0x2028 || n == 0x2029 || n == 0x202F || n == 0x205F ||
    n == 0x3000

/-- A text without its leading blanks. -/
def trimLeft (s : List Char) : List Char := s.dropWhile isBlank

/-- A text without its trailing blanks. -/
def trimRight (s : List Char) : List Char := (s.reverse.dropWhile isBlank).reverse

/-- A text without the blanks at its two ends. -/
def trim (s : List Char) : List Char := trimRight (trimLeft s)

/-- Nothing but blanks is lost on the left. -/
theorem takeWhile_append_trimLeft (s : List Char) : s.takeWhile isBlank ++ trimLeft s = s :=
  List.takeWhile_append_dropWhile

end RecordForge.Text
