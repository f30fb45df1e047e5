import RecordForge.Failure

/-!
# Writing JSON documents

JSON has single values, lists and objects only, so a document with anything else cannot be written.

* `Json.text`: a document as JSON text, on one line.
-/

namespace RecordForge.Json

/-- A character within quotes. -/
def escaped (c : Char) : List Char :=
  if c = '"' then ['\\', '"']
  else if c = '\\' then ['\\', '\\']
  else if c.toNat < 0x20 then
    '\\' :: 'u' :: Text.hexDigits 4 c.toNat
  else [c]

/-- A piece within quotes. -/
def escapedPiece : Text.Piece → List Char
  | .char c => escaped c
  | .half n => '\\' :: 'u' :: Text.hexDigits 4 n

/-- A text within quotes. -/
def quoted (s : String) : String := String.ofList ('"' :: s.toList.flatMap escaped ++ ['"'])

/-- Pieces within quotes. -/
def quotedPieces (pieces : List Text.Piece) : String :=
  String.ofList ('"' :: pieces.flatMap escapedPiece ++ ['"'])

/-- A single value. -/
def valueText : Value → String
  | .null => "null"
  | .bool true => "true"
  | .bool false => "false"
  | .int n => Decimal.integer n
  | .float x =>
    if x.isNaN then "NaN"
    else if x.isInf then (if x > 0.0 then "Infinity" else "-Infinity")
    else Decimal.shortestText Decimal.doubles x
  | .text s => quoted s

/-- A leaf. Only single values can be written. -/
def leafText : Leaf → Except Defect String
  | .value v => .ok (valueText v)
  | .broken pieces => .ok (quotedPieces pieces)
  | .other _ => .error .illTyped
  | .again _ => .error .endless

/-- The key of an entry. -/
def keyText : Leaf → Except Defect String
  | .value (.text s) => .ok (quoted s)
  | .broken pieces => .ok (quotedPieces pieces)
  | l => (leafText l).map quoted

mutual

/-- A document. -/
def text : Document → Except Defect String
  | .atom l => leafText l
  | .list items => (itemTexts items).map fun ts => "[" ++ ", ".intercalate ts ++ "]"
  | .dict entries => (entryTexts entries).map fun ts => "\x7b" ++ ", ".intercalate ts ++ "\x7d"

/-- The items of a list. -/
def itemTexts : List Document → Except Defect (List String)
  | [] => .ok []
  | d :: rest => do
    let first ← text d
    let more ← itemTexts rest
    return first :: more

/-- The entries of a dictionary. -/
def entryTexts : List (Leaf × Document) → Except Defect (List String)
  | [] => .ok []
  | (k, d) :: rest => do
    let key ← keyText k
    let first ← text d
    let more ← entryTexts rest
    return (key ++ ": " ++ first) :: more

end

end RecordForge.Json
