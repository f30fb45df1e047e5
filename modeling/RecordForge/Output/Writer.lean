import RecordForge.Output.Content
import RecordForge.Output.Conversion
import RecordForge.Output.Csv
import RecordForge.Output.Format
import RecordForge.Schema.Descriptor

/-!
# Writing records to a file

A writer takes records one by one and holds them until there are enough to write. A record is copied
when it is taken, so what happens to it later does not matter. The first write makes the file, with a
header; later ones add to it. A writer that is closed without any record writes the header alone.

* `Writer`: the columns, what is held, and the file as it is.
* `append`, `flush`, `close`: the operations. A write that fails leaves its records held.
-/

namespace RecordForge

/-- A writer of records that share their columns. -/
structure Writer where
  format : Format
  columns : List String
  /-- How many records are held before they are written. -/
  interval : Nat
  /-- The kinds that fields are generated as. -/
  kinds : Ledger String Kind
  /-- The schema of an Avro file. -/
  schema : AvroSchema
  /-- How the fields of a comma-separated file are quoted. -/
  dialect : Csv.Dialect := {}
  /-- How many records have been written. -/
  written : Nat := 0
  /-- The records that are held, each with one value to a column. -/
  pending : List Record := []
  /-- The file, once it is there. -/
  file : Option Content := none
  /-- Whether a write has succeeded. -/
  started : Bool := false
  closed : Bool := false
  /-- What keeps the file from being written, if anything does. -/
  obstacle : Option Defect := none

namespace Writer

/-- The writer of a file that is not there yet. Only an Avro file needs a schema. -/
def create (format : Format) (columns : List String) (interval : Nat) (kinds : Ledger String Kind)
    (schema : Option Document) (dialect : Csv.Dialect := {}) : Except Failure Writer :=
  if format = .avro then
    match schema with
    | none => .error (.defect .noSchema)
    | some d =>
      (AvroSchema.ofDocument d).map fun schema =>
        { format, columns, interval, kinds, schema, dialect }
  else .ok { format, columns, interval, kinds, schema := { type := .record [] }, dialect }

/-! ## Rows -/

/-- A record as the writer holds it: one value to a column, null where the record has none. -/
def snapshot (w : Writer) (r : Record) : Record :=
  (firsts w.columns).map fun c => (c, (Ledger.get? r c).getD .null)

/-- The type of a column. -/
def columnType (w : Writer) (c : String) : ColumnType := .ofKind (Ledger.get? w.kinds c)

/-- The value of a held record in a column. -/
def valueIn (r : Record) (c : String) : Value := (Ledger.get? r c).getD .null

/-- The stored values of a held record, if each suits its column. -/
def storeRow? (w : Writer) (r : Record) : Option (List Value) :=
  w.columns.mapM fun c => (w.columnType c).store? (valueIn r c)

/-- The stored values of held records, with each column converted as a whole. -/
def convertRows (w : Writer) (rows : List Record) : Except Failure (List (List Value)) := do
  let columns ← w.columns.mapM fun c => (w.columnType c).convert (rows.map fun r => valueIn r c)
  return rows.mapIdx fun i _ => columns.map fun values => values.getD i .null

/-- The stored values of held records; a table without columns has no rows. -/
def storeRows (w : Writer) (rows : List Record) : Except Failure (List (List Value)) :=
  if w.columns.isEmpty then .ok []
  else match rows.mapM w.storeRow? with
    | some stored => .ok stored
    | none => w.convertRows rows

/-! ## Comma-separated files -/

/-- The fields of a row of stored values. -/
def csvFields (w : Writer) (row : List Value) : List (List Char) :=
  (w.columns.zip row).map fun (c, v) => ((w.columnType c).text v).toList

/-- The text that rows add to a comma-separated file. -/
def csvText (w : Writer) (rows : List (List Value)) : String :=
  let header := if w.started then [] else [w.columns.map String.toList]
  String.ofList (Csv.table w.dialect (header ++ rows.map w.csvFields))

/-- The text that a file starts with before rows are added. -/
def csvBefore (w : Writer) : String :=
  match w.started, w.file with
  | true, some (.text s) => s
  | _, _ => ""

/-! ## Columnar files -/

/-- The columns of a columnar file, typed by its first rows where no kind does. -/
def parquetColumns (w : Writer) (rows : List (List Value)) : List (String × ParquetType) :=
  let values := Parquet.columnsOf w.columns.length rows
  (w.columns.zip values).map fun (c, vs) => (c, .ofColumn (w.columnType c) vs)

/-- The columnar file before rows are added. -/
def parquetBefore (w : Writer) (rows : List (List Value)) : Parquet :=
  match w.started, w.file with
  | true, some (.parquet p) => p
  | _, _ => ⟨w.parquetColumns rows, []⟩

/-! ## Avro files -/

/-- The blocks of an Avro file before records are added. -/
def avroBefore (w : Writer) : List Avro.Block :=
  match w.started, w.file with
  | true, some (.avro blocks) => blocks
  | _, _ => []

/-! ## Operations -/

/-- The file after rows are added to an Avro file, and the failure if there is one. A schema that cannot
head the file leaves it empty. -/
def avroAfter (w : Writer) (rows : List Record) : Option Content × Option Failure :=
  match w.schema.obstacle with
  | some d => (some (.text ""), some (.defect d))
  | none =>
    let (blocks, failure) := Avro.blocksOf w.schema rows {}
    (some (.avro (w.avroBefore ++ blocks)), failure)

/-- The file after rows are added to a comma-separated file, and the failure if there is one. -/
def csvAfter (w : Writer) (rows : List Record) : Option Content × Option Failure :=
  match w.storeRows rows with
  | .ok rows => (some (.text (w.csvBefore ++ w.csvText rows)), none)
  | .error e => (w.file, some e)

/-- The file after rows are added to a columnar file, and the failure if there is one. -/
def parquetAfter (w : Writer) (rows : List Record) : Option Content × Option Failure :=
  match w.storeRows rows with
  | .error e => (w.file, some e)
  | .ok rows =>
    if w.columns.Nodup then
      match (w.parquetBefore rows).add rows with
      | .ok p => (some (.parquet p), none)
      | .error e => (w.file, some e)
    else (w.file, some (.defect .repeatedColumn))

/-- The file after a write of rows, and the failure if there is one. -/
def fileAfter (w : Writer) (rows : List Record) : Option Content × Option Failure :=
  match w.format with
  | .avro => w.avroAfter rows
  | .csv => w.csvAfter rows
  | .parquet => w.parquetAfter rows

/-- Write rows. -/
def write (w : Writer) (rows : List Record) : Writer × Option Failure :=
  match w.obstacle with
  | some d => (w, some (.defect d))
  | none =>
    let (file, failure) := w.fileAfter rows
    ({ w with file := file, started := w.started || failure.isNone }, failure)

/-- Write what is held, if there is anything. -/
def flush (w : Writer) : Writer × Option Failure :=
  if w.pending.isEmpty then (w, none)
  else match w.write w.pending with
    | (w', none) => ({ w' with written := w.written + w.pending.length, pending := [] }, none)
    | (w', some e) => (w', some e)

/-- Hold a copy of a record, and write what is held once it is enough. -/
def append (w : Writer) (r : Record) : Writer × Option Failure :=
  let w := { w with pending := w.pending ++ [w.snapshot r] }
  if w.interval ≤ w.pending.length then w.flush else (w, none)

/-- Write what is held, or a header alone if nothing has been written. -/
def close (w : Writer) : Writer × Option Failure :=
  if w.closed then (w, none)
  else match w.flush with
    | (w, some e) => (w, some e)
    | (w, none) =>
      if w.started then ({ w with closed := true }, none)
      else match w.write [] with
        | (w, none) => ({ w with closed := true }, none)
        | (w, some e) => (w, some e)

/-- What can be seen in the file. A columnar file can only be read once it is closed. -/
def visible (w : Writer) : Option Content :=
  match w.format with
  | .parquet => if w.closed then w.file else none
  | _ => w.file

end Writer

end RecordForge
