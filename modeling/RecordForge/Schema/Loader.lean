import RecordForge.Failure
import RecordForge.Schema.Descriptor

/-!
# Loading a record schema

A record schema is a dictionary with the type `record` and a list of fields. The type of a field is a
name, a list of the members of a union, or a dictionary. A dictionary may define a name, which later
types may use; what is defined while one schema is read is forgotten when the next one is.

* `Reading`: reading part of a schema, which may define names and may fail.
* `readType`: the descriptor of a type.
* `Loader.readFields`: the loader after a list of fields, up to the first failure.
* `Loader.load`: the loader after a document, and the failure if there is one.
-/

namespace RecordForge.Schema

/-- The types defined by name so far. -/
abbrev NamedTypes := Ledger String Descriptor

/-- A reading of part of a schema. What it has defined by name stays defined if it fails. -/
abbrev Reading (α : Type) := ExceptT Failure (StateM NamedTypes) α

/-! ## Types -/

/-- The kind that a type name stands for. -/
def readKind (field : String) (type : Document) : Except Failure Kind :=
  match type.text?.bind Kind.ofName? with
  | some kind => .ok kind
  | none => .error (.schema (.unknownType field type))

/-- The name that a dictionary has of its own. -/
def ownName? (dict : Document) : Option String := (dict.get? "name").bind Document.text?

/-- Define the own name of a dictionary that describes a type, if it has one. -/
def define (dict : Document) (d : Descriptor) : Reading Unit :=
  match ownName? dict with
  | some name => modify fun named => Ledger.set named name d
  | none => pure ()

/-- The texts of a list of documents, if all of them are texts. -/
def texts? : List Document → Option (List String)
  | [] => some []
  | d :: rest => d.text?.bind fun s => (texts? rest).map (s :: ·)

/-- The descriptor of an enum. -/
def readEnum (field : String) (dict : Document) : Except Failure Descriptor :=
  match dict.get? "symbols" with
  | some (.list items) =>
    match texts? items with
    | some (s :: rest) => .ok ⟨field, .enum, firsts (s :: rest), [], false⟩
    | _ => .error (.schema (.noSymbols field))
  | _ => .error (.schema (.noSymbols field))

/-- The descriptor of a dictionary whose type is a leaf; one without a type counts as having null. -/
def describe (field : String) (dict : Document) (type : Leaf) : Except Failure Descriptor :=
  if type = .text "enum" then readEnum field dict
  else (readKind field (.atom type)).map (Descriptor.plain field)

/-- Read a dictionary whose type is a leaf. -/
def readDict (field : String) (dict : Document) (type : Leaf) : Reading Descriptor := do
  let d ← liftM (describe field dict type)
  define dict d
  return d

/-- The type that a leaf names, if it is defined. -/
def NamedTypes.find? (named : NamedTypes) : Leaf → Option Descriptor
  | .value (.text s) => Ledger.get? named s
  | _ => none

/-- Read a type given by a leaf: a defined name goes before a kind. -/
def readName (field : String) (type : Leaf) : Reading Descriptor := do
  match (← get).find? type with
  | some d => return ⟨field, d.kind, d.symbols, d.members, d.nullable⟩
  | none => liftM ((readKind field (.atom type)).map (Descriptor.plain field))

mutual

/-- Read a type. There is no descriptor of a type within itself. -/
def readType (field : String) : Document → Reading Descriptor
  | .atom (.again _) => throw (.defect .tooDeep)
  | .atom l => readName field l
  | .list items => do
    let members ← readMembers field items
    return Descriptor.union field members
  | .dict entries => readEntry field (.dict entries) entries

/-- Read the members of a union. -/
def readMembers (field : String) : List Document → Reading (List Descriptor)
  | [] => return []
  | d :: rest => do
    let m ← readType field d
    let ms ← readMembers field rest
    return m :: ms

/-- Read a dictionary by its entries: the entry `type` may be a whole type. -/
def readEntry (field : String) (dict : Document) : List (Leaf × Document) → Reading Descriptor
  | [] => readDict field dict (.value .null)
  | (k, d) :: rest =>
    if k = .text "type" then
      match d with
      | .atom (.again _) => throw (.defect .tooDeep)
      | .atom l => readDict field dict l
      | type => readType field type
    else readEntry field dict rest

end

/-! ## Fields -/

/-- The name of an entry of the list of fields. -/
def fieldName (entry : Document) : Except Failure String :=
  match ownName? entry with
  | some name => .ok name
  | none => .error (.schema (.unnamedField entry))

/-- Read an entry of the list of fields, after the fields with the given names. -/
def readField (before : List String) (entry : Document) : Reading Descriptor := do
  let name ← liftM (fieldName entry)
  if name ∈ before then throw (.schema (.repeatedField name))
  match entry.get? "type" with
  | none => throw (.schema (.untypedField name))
  | some type => readType name type

/-! ## The loader -/

/-- What the last usable document said. -/
structure Loader where
  /-- The name of the record, as the document gives it. -/
  name : Document := .text ""
  /-- The document itself. -/
  document : Document := .dict []
  /-- The fields in order. -/
  fields : List Descriptor := []
  /-- The types that the document defined by name. -/
  named : NamedTypes := []

/-- The list of fields of a document that is a record. -/
def recordFields (d : Document) : Except Failure (List Document) :=
  if (d.get? "type").bind Document.text? = some "record" then
    match d.get? "fields" with
    | some (.list items) => .ok items
    | _ => .error (.schema .noFields)
  else .error (.schema .notRecord)

namespace Loader

/-- The field with a name. -/
def field? (l : Loader) (name : String) : Option Descriptor := l.fields.find? fun d => d.name == name

/-- The names of the fields in order. -/
def names (l : Loader) : List String := l.fields.map (·.name)

/-- The loader after more fields, up to the first failure: the fields before it stay. -/
def readFields (l : Loader) : List Document → Loader × Option Failure
  | [] => (l, none)
  | entry :: rest =>
    match (readField l.names entry).run l.named with
    | (.error e, named) => ({ l with named := named }, some e)
    | (.ok d, named) => readFields { l with fields := l.fields ++ [d], named := named } rest

/-- The loader after a document, and the failure if there is one. A document that is no record with a
list of fields leaves the loader as it was; another failure leaves the fields before it. -/
def load (l : Loader) (d : Document) : Loader × Option Failure :=
  match recordFields d with
  | .error e => (l, some e)
  | .ok entries =>
    readFields
      { l with
        document := d
        name := (d.get? "name").getD (.text "")
        named := []
        fields := [] }
      entries

end Loader

end RecordForge.Schema
