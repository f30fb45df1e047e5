import RecordForge.Output.Format
import RecordForge.Schema.Document

/-!
# Failures

Whatever ends an operation is one of these causes. A failure of the first group is a diagnosis: a
run reports it and stops. A failure of the second group is a defect of the request or of its
surroundings that is not diagnosed.

* `SchemaFault`, `Failure`, `Defect`: the causes.
* `Failure.message`: the text of a failure, where it has one.
-/

namespace RecordForge

/-- Why something is not a usable record schema. -/
inductive SchemaFault where
  /-- The file cannot be read or is no document. -/
  | unreadable (path : String)
  /-- The document is not a record. -/
  | notRecord
  /-- The record has no list of fields. -/
  | noFields
  /-- An entry of the list of fields has no name. -/
  | unnamedField (entry : Document)
  /-- Two fields have one name. -/
  | repeatedField (name : String)
  /-- A field has no type. -/
  | untypedField (name : String)
  /-- The type of a field is not known. -/
  | unknownType (field : String) (type : Document)
  /-- An enum has no list of symbols. -/
  | noSymbols (field : String)
  /-- The schema is not valid for Avro files. -/
  | notAvro

/-- The text of a schema fault. -/
def SchemaFault.message : SchemaFault → String
  | unreadable path => s!"Error reading specified schema file '{path}'"
  | notRecord => "Top-level schema must be a record."
  | noFields => "Record schema must have a list of 'fields'."
  | unnamedField entry => s!"Every field needs a name, got: {entry.render}"
  | repeatedField name => s!"Field '{name}' is declared twice."
  | untypedField name => s!"Field '{name}' has no type."
  | unknownType field type => s!"Field '{field}' has unknown type {type.render}."
  | noSymbols field => s!"Enum field '{field}' must declare a non-empty list of symbols."
  | notAvro => "Schema cannot be used for Avro output"

/-- What stops an operation without a diagnosis. -/
inductive Defect where
  /-- A draw was asked for from no numbers at all. -/
  | emptyDraw (bound : Int)
  /-- A bound of a draw is beyond what the source can draw. -/
  | greatDraw (bound : Int)
  /-- A division by zero. -/
  | divisionByZero
  /-- A position outside of a list. -/
  | noSuchItem
  /-- A date beyond the calendar. -/
  | dateOutOfReach
  /-- An integer too great for a floating-point number. -/
  | tooGreat
  /-- A number with too many digits. -/
  | longNumber (digits : Nat)
  /-- A text that is no number. -/
  | malformedNumber (text : String)
  /-- A text that names no day. -/
  | malformedDate (text : String)
  /-- A kind without a grammar. -/
  | noGrammar (kind : Kind)
  /-- A strategy that does not suit the field. -/
  | unsuited
  /-- A negative seed. -/
  | negativeSeed
  /-- A flush interval that is not positive. -/
  | flushInterval
  /-- An output format that does not exist. -/
  | unknownFormat (format : String)
  /-- Avro output without a schema. -/
  | noSchema
  /-- A builder was given no source. -/
  | noSource
  /-- A path that names no file, or a suffix that is none. -/
  | noFileName
  /-- A file has no directory to be written to. -/
  | unwritable (path : String)
  /-- A path with a name that is too long. -/
  | longName (path : String)
  /-- A path that is not there. -/
  | notFound (path : String)
  /-- A path that goes on below a file. -/
  | notDirectory (path : String)
  /-- A directory where a file is needed. -/
  | isDirectory (path : String)
  /-- A value does not suit the type of its column. -/
  | illTyped
  /-- A value suits no member of a union, or no symbol of an enum. -/
  | noMember
  /-- A floating-point value that is no number. -/
  | notNumber
  /-- A value without the parts that its type asks for. -/
  | noParts
  /-- A part of a schema lacks an entry that it needs. -/
  | missingEntry (key : String)
  /-- A part of a schema has a part that is itself. -/
  | endless
  /-- A type that has itself as a part. -/
  | tooDeep
  /-- A value that a column of a columnar file cannot take. -/
  | unfitCell
  /-- A value of a kind that a column of a columnar file does not take at all. -/
  | strangeCell
  /-- Two columns of a columnar file have one name. -/
  | repeatedColumn
  deriving DecidableEq

/-- The text of a defect, where it has one of its own. -/
def Defect.message? : Defect → Option String
  | emptyDraw bound => some s!"bound must be positive, got {Decimal.integer bound}"
  | flushInterval => some "flush_interval must be positive"
  | unknownFormat format =>
    let names := ", ".intercalate (Format.all.map Format.name)
    some s!"Unknown output format: {format}. Available: {names}"
  | noSchema => some "Avro output needs the record schema"
  | noSource => some "rng must not be None"
  | _ => none

/-- The start of a quoted text, as much of it as a report shows. -/
def excerpt (text : String) : String := String.ofList ((Text.quoted text).toList.take 200)

/-- The text of a defect of a number or a setting, as a report of the configuration shows it. -/
def Defect.report : Defect → String
  | malformedNumber text => s!"invalid literal for int() with base 10: {excerpt text}"
  | longNumber digits =>
    s!"Exceeds the limit (4300 digits) for integer string conversion: value has {digits} digits; " ++
      "use sys.set_int_max_str_digits() to increase the limit"
  | d => d.message?.getD ""

/-- What ends an operation. -/
inductive Failure where
  /-- The schema cannot be used. -/
  | schema (fault : SchemaFault)
  /-- A kind that is never generated. -/
  | unsupported (kind : Kind)
  /-- A union without a member to generate. -/
  | emptyUnion (field : String)
  /-- There were no more answers. -/
  | exhausted (prompt : String)
  /-- A generated value is beyond the range of its field. -/
  | misfit (value : Int)
  /-- The file of recorded answers cannot be read. -/
  | unreadableSettings (path : String)
  /-- A failure without a diagnosis. -/
  | defect (d : Defect)

/-- Whether a failure is a diagnosis, which a run reports. -/
def Failure.isDiagnosis : Failure → Bool
  | defect _ => false
  | _ => true

/-- The text of a failure, where it has one of its own. -/
def Failure.message? : Failure → Option String
  | schema fault => some fault.message
  | unsupported kind => some s!"The avro type '{kind.name}' is currently not supported."
  | emptyUnion field => some s!"Avro union field '{field}' does not have at least 1 non-null type."
  | exhausted prompt => some s!"No more input while waiting for an answer to: {prompt}"
  | misfit value => some s!"Value {Decimal.integer value} does not fit in an int field."
  | unreadableSettings path => some s!"Error reading specified settings file '{path}'"
  | defect d => d.message?

/-- Every diagnosis has a text. -/
theorem Failure.message?_isSome {f : Failure} (h : f.isDiagnosis = true) : f.message?.isSome := by
  cases f <;> simp_all [isDiagnosis, message?]

end RecordForge
