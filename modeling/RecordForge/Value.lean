/-!
# Kinds and values

* `Kind`: the type names of a record schema.
* `Value`: what a field of a record, an item of a set or an atom of a document may be.
-/

namespace RecordForge

/-- The type of a field. The first six kinds are generated, a union is generated as one of its
members, and the others are only described. -/
inductive Kind where
  | int | long | float | double | string | enum | union
  | null | boolean | bytes | record | array | map | fixed
  deriving DecidableEq, Repr

namespace Kind

/-- Every kind. -/
def all : List Kind :=
  [int, long, float, double, string, enum, union, null, boolean, bytes, record, array, map, fixed]

/-- The name of a kind in a schema and in prompts. -/
def name : Kind → String
  | int => "int" | long => "long" | float => "float" | double => "double" | string => "string"
  | enum => "enum" | union => "union" | null => "null" | boolean => "boolean" | bytes => "bytes"
  | record => "record" | array => "array" | map => "map" | fixed => "fixed"

/-- The kind with a name. -/
def ofName? (s : String) : Option Kind := all.find? fun k => k.name == s

/-- Whether values of the kind are integers. -/
def isInteger : Kind → Bool
  | int | long => true
  | _ => false

/-- Whether values of the kind are binary floating-point numbers. -/
def isDecimal : Kind → Bool
  | float | double => true
  | _ => false

/-- Every kind is listed. -/
theorem mem_all (k : Kind) : k ∈ all := by cases k <;> decide

/-- A kind is found under its name. -/
theorem ofName?_name (k : Kind) : ofName? k.name = some k := by cases k <;> decide

end Kind

/-- A single value. -/
inductive Value where
  | null
  | bool (b : Bool)
  | int (n : Int)
  | float (x : Float)
  | text (s : String)
  deriving DecidableEq, Inhabited

/-- A record: the values of fields in the order in which the fields were first written. -/
abbrev Record := List (String × Value)

end RecordForge
