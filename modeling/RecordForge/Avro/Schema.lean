import RecordForge.Number.Numeral
import RecordForge.Schema.JsonText

/-!
# Schemas of Avro files

A record schema has to follow the rules of Avro before it can head a file: a named type needs a name
that is new, a reference has to name a type that is there, the symbols of an enum have to be
identifiers that differ, and the default of a field has to suit its type.

* `AvroType`, `AvroField`: types, and the fields of records.
* `AvroType.read`: the type that a document describes.
* `AvroSchema`: a type with the records that it refers to by name.

A reference to a record stays a name, since a record may refer to itself; one to another named type is
replaced by that type.
-/

namespace RecordForge

/-- The primitive types. -/
inductive Primitive where
  | null | boolean | int | long | float | double | bytes | string
  deriving DecidableEq, Repr

namespace Primitive

/-- Every primitive type. -/
def all : List Primitive := [null, boolean, int, long, float, double, bytes, string]

/-- The name of a primitive type. -/
def name : Primitive → String
  | null => "null"
  | boolean => "boolean"
  | int => "int"
  | long => "long"
  | float => "float"
  | double => "double"
  | bytes => "bytes"
  | string => "string"

/-- The primitive type with a name. -/
def ofName? (s : String) : Option Primitive := all.find? fun p => p.name == s

/-- Whether the values of a type are binary floating-point numbers. -/
def isReal : Primitive → Bool
  | float | double => true
  | _ => false

end Primitive

/-- A field of a record with types of some kind. -/
structure AvroField (τ : Type) where
  name : String
  type : τ
  /-- The value that counts when the field is missing. -/
  default : Option Document
  /-- Whether the values of the field are made numbers before they are written. -/
  isReal : Bool
  /-- Whether the field may be missing without a default. -/
  isOptional : Bool

/-- A type of an Avro file. -/
inductive AvroType where
  | primitive (p : Primitive)
  /-- Days as integers, counted from the first day of 1970. -/
  | days
  | enum (symbols : List String)
  /-- A count of bytes; there is none if the schema gives no integer. -/
  | fixed (size : Option Int)
  | array (items : AvroType)
  | map (values : AvroType)
  | union (branches : List AvroType)
  | record (fields : List (AvroField AvroType))
  /-- A record by its name. -/
  | named (name : String)

namespace AvroType

/-- The named types so far. -/
abbrev Names := Ledger String AvroType

/-- A step of reading a schema. -/
abbrev Parsing (α : Type) := Except Failure α

/-- A schema that breaks a rule of Avro. -/
def refuse {α : Type} : Parsing α := .error (.schema .notAvro)

/-- A part of a schema that is of no use where it stands. -/
def illTyped {α : Type} : Parsing α := .error (.defect .illTyped)

/-! ## Names -/

/-- The part of a full name before its last point, if it has one. -/
def spaceOf? (name : String) : Option String :=
  let cs := name.toList.reverse
  if cs.contains '.' then some (String.ofList ((cs.dropWhile (· != '.')).drop 1).reverse) else none

/-- A name within a namespace. -/
def within (space name : String) : String :=
  if space = "" ∨ (spaceOf? name).isSome then name else space ++ "." ++ name

/-- The namespace that a dictionary gives, or else the one around it. -/
def spaceIn (space : String) (dict : Document) : String :=
  match dict.get? "namespace" with
  | none => space
  | some d => if d.isTrue then d.text?.getD d.render else ""

/-- The name of a named type within a namespace: the namespace of its parts, and its full name. -/
def fullName (space : String) (dict : Document) : Parsing (String × String) :=
  match dict.get? "name" with
  | none => refuse
  | some (.text name) =>
    let space := spaceIn space dict
    .ok ((spaceOf? name).getD space, within space name)
  | some (.atom (.broken _)) => refuse
  | some _ => illTyped

/-- The names after a named type, which has to be new. -/
def declare (names : Names) (name : String) (t : AvroType) : Parsing Names :=
  if (Ledger.get? names name).isSome then refuse else .ok (Ledger.set names name t)

/-- The type that a name refers to. -/
def resolve (space name : String) (names : Names) : Parsing AvroType :=
  match Primitive.ofName? name with
  | some p => .ok (primitive p)
  | none =>
    match Ledger.get? names (within space name) with
    | some (record _) => .ok (named (within space name))
    | some t => .ok t
    | none => refuse

/-! ## Symbols -/

/-- Whether a character may stand in an identifier after its start. -/
def isIdentifierRest (c : Char) : Bool := c.isAlphanum || c == '_'

/-- Whether a text is an identifier. -/
def isIdentifier (s : String) : Bool :=
  match s.toList with
  | [] => false
  | c :: rest => (c.isAlpha || c == '_') && rest.all isIdentifierRest

/-- The symbols of a list of documents. -/
def readSymbols : List Document → Parsing (List String)
  | [] => .ok []
  | d :: rest =>
    match d.text? with
    | some s => if isIdentifier s then (readSymbols rest).map (s :: ·) else refuse
    | none => refuse

/-- The symbols of an enum, which have to differ. The default has to be one of them. -/
def enumSymbols (dict : Document) : Parsing (List String) :=
  match dict.get? "symbols" with
  | some (.list items) => do
    let symbols ← readSymbols items
    let isSymbol (d : Document) : Bool := d.text?.any symbols.contains
    if symbols.Nodup ∧ (dict.get? "default").all isSymbol then return symbols else refuse
  | some _ => refuse
  | none => .error (.defect (.missingEntry "symbols"))

/-! ## Decimals -/

/-- What a type says that its values stand for. -/
def logicalType? (dict : Document) : Option String := (dict.get? "logicalType").bind Document.text?

/-- How many decimal digits some bytes hold: the integer part of the logarithm of the greatest number
of theirs. -/
def digitsIn (size : Int) : Int :=
  let x := Float.floor (0.30102999566398120 * Float.ofInt (8 * size - 1))
  ((Binary.decode? x).map Binary.truncate).getD 0

/-- A document that does not count as false has to be an integer from a least one on. -/
def checkLeast (least : Int) (d : Document) : Parsing Unit :=
  if d.isTrue && !(d.integer?.any fun n => least ≤ n) then refuse else .ok ()

/-- A precision has to fit in the bytes of a type of a fixed size. -/
def checkSize (dict precision : Document) : Parsing Unit :=
  match dict.get? "size", precision.integer? with
  | none, _ => .error (.defect (.missingEntry "size"))
  | some size, some p =>
    match size.integer? with
    | some n => if digitsIn n < p then refuse else .ok ()
    | none => illTyped
  | some _, none => .ok ()

/-- What a type has to give if its values are to be taken as decimals. -/
def checkDecimal (dict : Document) (isFixed : Bool) : Parsing Unit := do
  if logicalType? dict = some "decimal" then
    let scale := (dict.get? "scale").getD (.value .null)
    let precision := (dict.get? "precision").getD (.value .null)
    checkLeast 0 scale
    checkLeast 1 precision
    if precision.isTrue && isFixed then checkSize dict precision
    match scale.integer?, precision.integer? with
    | some s, some p => if s ≠ 0 ∧ p ≠ 0 ∧ p < s then refuse
    | _, _ => return

/-! ## Defaults -/

/-- Whether a document can be made a floating-point number. -/
def isNumber : Document → Bool
  | .value (.int _) | .value (.float _) | .value (.bool _) => true
  | .text s => (Numeral.real? s.toList).isSome
  | _ => false

/-- Whether a primitive type may have a default. The bare name of a floating-point type takes all that
can be made a number. -/
def takes (p : Primitive) (isBare : Bool) (d : Document) : Bool :=
  match p, d with
  | .null, .value .null => true
  | .boolean, .value (.bool _) => true
  | .int, d | .long, d => d.integer?.isSome
  | .float, d | .double, d =>
    if isBare then isNumber d else match d with
      | .value (.float _) => true
      | _ => false
  | .string, d | .bytes, d => d.isSpelled
  | _, _ => false

/-- Whether a branch of a union may have a default: only bare names are judged. -/
def branchTakes (d : Document) : Document → Bool
  | .text name => ((Primitive.ofName? name).map fun p => takes p true d).getD true
  | _ => true

/-- Whether the type of a dictionary may have a default. -/
def kindTakes (kind : String) (d : Document) : Bool :=
  match kind, d with
  | "array", .list _ => true
  | "map", .dict _ | "record", .dict _ | "error", .dict _ => true
  | "enum", d | "fixed", d => d.isSpelled
  | _, _ => ((Primitive.ofName? kind).map fun p => takes p false d).getD false

/-- Whether the type that a document describes may have a default. -/
def mayDefault (d : Document) : Document → Bool
  | .text name => branchTakes d (.text name)
  | .list branches => branches.any (branchTakes d)
  | .dict entries =>
    match (Document.dict entries).get? "type" with
    | some (.text kind) => kindTakes kind d
    | _ => true
  | _ => true

/-! ## Fields -/

/-- Whether a text has a part. -/
def hasPart (part : List Char) : List Char → Bool
  | [] => part.isEmpty
  | c :: s => part.isPrefixOf (c :: s) || hasPart part s

/-- Whether a field of the type that a document describes may be missing: its type, or the bare name of
one of its branches, tells of null. -/
def mayLack (space : String) : Document → Bool
  | .text name => hasPart "null".toList (within space name).toList
  | .list branches => branches.any fun b => b.text? == some "null"
  | d => (d.get? "null").isSome

/-- Whether a document is the bare name of a floating-point type. -/
def isBareReal (d : Document) : Bool := (d.text?.bind Primitive.ofName?).any Primitive.isReal

/-- A reader of the type that a document describes, and of the names after it. -/
abbrev TypeReader := Document → Names → Parsing (AvroType × Names)

/-- The types of the members of a union. -/
def readBranches (read : TypeReader) : List Document → Names → Parsing (List AvroType × Names)
  | [], names => .ok ([], names)
  | d :: rest, names => do
    let (t, names) ← read d names
    let (ts, names) ← readBranches read rest names
    return (t :: ts, names)

/-- A field of a record. -/
def readField (read : TypeReader) (space : String) (entry : Document) (names : Names) :
    Parsing (AvroField AvroType × Names) := do
  let isList : Document → Bool
    | .list _ => true
    | _ => false
  if !(entry.get? "aliases").all isList then refuse
  match entry.get? "name", entry.get? "type" with
  | some name, some type =>
    let (t, names) ← read type names
    let default := entry.get? "default"
    if !default.all fun d => mayDefault d type then refuse
    let name := name.text?.getD name.render
    return (⟨name, t, default, isBareReal type, mayLack space type⟩, names)
  | _, _ => refuse

/-- The fields of a record. -/
def readFields (read : TypeReader) (space : String) :
    List Document → Names → Parsing (List (AvroField AvroType) × Names)
  | [], names => .ok ([], names)
  | entry :: rest, names => do
    let (f, names) ← readField read space entry names
    let (fs, names) ← readFields read space rest names
    return (f :: fs, names)

/-- The list of the fields of a record; a record without one has no fields. -/
def fieldsOf (dict : Document) : Parsing (List Document) :=
  match dict.get? "fields" with
  | none | some (.dict []) | some (.text "") => .ok []
  | some (.list items) => .ok items
  | some (.dict _) | some (.text _) | some (.atom (.broken _)) => refuse
  | some (.atom _) => illTyped

/-! ## Types -/

/-- The type of a record, whose name is there before its fields are read. -/
def readRecord (read : String → TypeReader) (space : String) (dict : Document) (names : Names) :
    Parsing (AvroType × Names) := do
  let (space, name) ← fullName space dict
  let names ← declare names name (record [])
  let (fields, names) ← readFields (read space) space (← fieldsOf dict) names
  return (record fields, Ledger.set names name (record fields))

/-- The type of an enum. -/
def readEnum (space : String) (dict : Document) (names : Names) : Parsing (AvroType × Names) := do
  let (_, name) ← fullName space dict
  -- the name is checked before the symbols
  let _ ← declare names name (enum [])
  let symbols ← enumSymbols dict
  return (enum symbols, ← declare names name (enum symbols))

/-- The type of a count of bytes. -/
def readFixed (space : String) (dict : Document) (names : Names) : Parsing (AvroType × Names) := do
  let (_, name) ← fullName space dict
  match dict.get? "size" with
  | some size => return (fixed size.integer?, ← declare names name (fixed size.integer?))
  | none =>
    let _ ← declare names name (fixed none)
    throw (.defect (.missingEntry "size"))

/-- The type of the parts of a type of many values, under a key. -/
def readPart (read : TypeReader) (key : String) (dict : Document) (names : Names) :
    Parsing (AvroType × Names) :=
  match dict.get? key with
  | some d => read d names
  | none => .error (.defect (.missingEntry key))

/-- The type of a dictionary that is of a kind. -/
def readKind (read : String → TypeReader) (space kind : String) (dict : Document) (names : Names) :
    Parsing (AvroType × Names) :=
  match kind with
  | "array" => (readPart (read space) "items" dict names).map fun (t, names) => (array t, names)
  | "map" => (readPart (read space) "values" dict names).map fun (t, names) => (map t, names)
  | "enum" => readEnum space dict names
  | "fixed" => readFixed space dict names
  | "record" | "error" => readRecord read space dict names
  | kind =>
    match Primitive.ofName? kind with
    | some .int => .ok (if logicalType? dict = some "date" then days else primitive .int, names)
    | some p => .ok (primitive p, names)
    | none => refuse

/-- The type that a document describes within a namespace, and the names after it. The document may be
as high as the first number says. -/
def read : (height : Nat) → (space : String) → TypeReader
  | 0, _ => fun _ _ => .error (.defect .tooDeep)
  | height + 1, space => fun d names =>
    match d with
    | .text s => (resolve space s names).map fun t => (t, names)
    | .atom (.broken _) => refuse
    | .atom (.again _) => .error (.defect .tooDeep)
    | .atom _ => illTyped
    | .list items =>
      (readBranches (read height space) items names).map fun (ts, names) => (union ts, names)
    | .dict entries =>
      let dict := Document.dict entries
      match dict.get? "type" with
      | none => .error (.defect (.missingEntry "type"))
      | some (.text kind) => do
        checkDecimal dict (kind == "fixed")
        readKind (read height) space kind dict names
      | some (.atom _) => refuse
      | some _ => illTyped

end AvroType

/-- The schema of a file. -/
structure AvroSchema where
  type : AvroType
  /-- The types that names refer to. -/
  names : AvroType.Names := []
  /-- What keeps the schema from being written as the head of a file, if anything does. -/
  obstacle : Option Defect := none

/-- The schema that a document is. -/
def AvroSchema.ofDocument (d : Document) : Except Failure AvroSchema :=
  (AvroType.read d.height "" d []).map fun (type, names) =>
    match Json.text d with
    | .ok _ => { type, names }
    | .error e => { type, names, obstacle := some e }

end RecordForge
