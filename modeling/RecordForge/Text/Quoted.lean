import RecordForge.Text.Printable
import RecordForge.Text.Surrogate

/-!
# Quoted text

How a text is shown inside a message: between quotes, with what is not printable escaped. The quotes
are single ones, unless the text has a single quote and no double one.
-/

namespace RecordForge.Text

/-- The last `width` hexadecimal digits of a number. -/
def hexDigits (width n : Nat) : List Char :=
  let ds := Nat.toDigits 16 n
  List.replicate (width - ds.length) '0' ++ ds

/-- One character of a quoted text. -/
def quoteChar (quote c : Char) : List Char :=
  if c = quote || c = '\\' then ['\\', c]
  else if c = '\n' then ['\\', 'n']
  else if c = '\r' then ['\\', 'r']
  else if c = '\t' then ['\\', 't']
  else if isPrintable c then [c]
  else
    let n := c.toNat
    if n < 0x100 then '\\' :: 'x' :: hexDigits 2 n
    else if n < 0x10000 then '\\' :: 'u' :: hexDigits 4 n
    else '\\' :: 'U' :: hexDigits 8 n

/-- One piece of a quoted text. -/
def quotePiece (quote : Char) : Piece → List Char
  | .char c => quoteChar quote c
  | .half n => '\\' :: 'u' :: hexDigits 4 n

/-- The quote that a text is shown between. -/
def quoteOf (s : List Char) : Char := if s.contains '\'' && !s.contains '"' then '"' else '\''

/-- A text between quotes. -/
def quoted (s : String) : String :=
  let cs := s.toList
  let quote := quoteOf cs
  String.ofList (quote :: cs.flatMap (quoteChar quote) ++ [quote])

/-- Pieces between quotes. -/
def quotedPieces (pieces : List Piece) : String :=
  let quote := quoteOf (pieces.filterMap Piece.char?)
  String.ofList (quote :: pieces.flatMap (quotePiece quote) ++ [quote])

/-- Bytes between quotes, after a sign that they are bytes. What is no printable ASCII character is
escaped. -/
def quotedBytes (bytes : List UInt8) : String :=
  let cs := bytes.map fun b => Char.ofNat b.toNat
  let quote := quoteOf cs
  let shown (c : Char) : List Char :=
    if c.toNat < 0x7F then quoteChar quote c else '\\' :: 'x' :: hexDigits 2 c.toNat
  String.ofList ('b' :: quote :: cs.flatMap shown ++ [quote])

end RecordForge.Text
