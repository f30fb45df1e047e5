/-!
# Output formats

* `Format`: the formats, with their names.
-/

namespace RecordForge

/-- The format of an output file. -/
inductive Format where
  | avro
  | parquet
  | csv
  deriving DecidableEq, Repr

namespace Format

/-- Every format. -/
def all : List Format := [avro, parquet, csv]

/-- The name of a format, which is also the suffix of its files. -/
def name : Format → String
  | avro => "avro"
  | parquet => "parquet"
  | csv => "csv"

/-- The format with a name. -/
def ofName? (s : String) : Option Format := all.find? fun f => f.name == s

/-- Every format is listed. -/
theorem mem_all (f : Format) : f ∈ all := by cases f <;> decide

/-- A format is found under its name. -/
theorem ofName?_name (f : Format) : ofName? f.name = some f := by cases f <;> decide

end Format

end RecordForge
