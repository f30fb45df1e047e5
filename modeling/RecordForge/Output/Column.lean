import RecordForge.Number.Binary
import RecordForge.Number.Notation
import RecordForge.Schema.Document

/-!
# Typed columns

A table stores the values of a field in a column whose type follows from the kind that the field was
generated as. A column of a field without such a kind takes any value.

* `ColumnType`: the types of columns.
* `ColumnType.store?`: a value that suits a column, as the column stores it.
* `ColumnType.text`: a stored value as text.
-/

namespace RecordForge

/-- The type of a column. -/
inductive ColumnType where
  | int32
  | int64
  | float32
  | float64
  | string
  | object
  deriving DecidableEq, Repr

namespace ColumnType

/-- The type of the column of a kind. -/
def ofKind : Option Kind → ColumnType
  | some .int => int32
  | some .long => int64
  | some .float => float32
  | some .double => float64
  | some .string | some .enum => string
  | _ => object

/-- The name of a type in a table. -/
def name : ColumnType → String
  | int32 => "Int32"
  | int64 => "Int64"
  | float32 => "float32"
  | float64 => "float64"
  | string => "string"
  | object => "object"

/-- A number of a floating-point column; what is no number is stored as null. -/
def storeFloat (x : Float) : Value := if x.isNaN then .null else .float x

/-- A value that suits a column of a type, as the column stores it. -/
def store? : ColumnType → Value → Option Value
  | _, .null => some .null
  | int32, .int n => if Word.IsInt n then some (.int n) else none
  | int64, .int n => if Word.IsLong n then some (.int n) else none
  | float32, .float x => some (storeFloat (Binary.toSingle x))
  | float64, .float x => some (storeFloat x)
  | string, .text s => some (.text s)
  | object, .float x => some (storeFloat x)
  | object, v => some v
  | _, _ => none

/-- A stored value as text. Null is the empty text. -/
def text (t : ColumnType) : Value → String
  | .null => ""
  | .float x => Decimal.shortestText (if t = float32 then Decimal.singles else Decimal.doubles) x
  | .text s => s
  | v => Document.renderValue v

end ColumnType

end RecordForge
