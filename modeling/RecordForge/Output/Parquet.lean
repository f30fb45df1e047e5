import RecordForge.Failure
import RecordForge.Number.Binary
import RecordForge.Output.Column

/-!
# Columnar files

A columnar file has typed columns and keeps its rows in groups. The type of a column follows from the
column of the table that it is written from, or from the values of its first rows where that takes any
value; what is written later has to be of that type, or to be made so.

* `ParquetType`: the types of columns.
* `ParquetType.infer`: the type of a column by its values.
* `ParquetType.cast`: a value in a column of a type.
* `Parquet`: a file.
-/

namespace RecordForge

/-- The type of a column of a columnar file. -/
inductive ParquetType where
  /-- The type of a column without values. -/
  | null
  | boolean
  | int32
  | int64
  | single
  | double
  | string
  deriving DecidableEq, Repr

namespace ParquetType

/-! ## Types by values -/

/-- The type of a column by its values, given whether there were integers before them. A Boolean or a
floating-point number settles the type; so does a text, unless there were integers. -/
def inferFrom (isInteger : Bool) : List Value → ParquetType
  | [] => if isInteger then int64 else null
  | .null :: rest => inferFrom isInteger rest
  | .int _ :: rest => inferFrom true rest
  | .bool _ :: _ => boolean
  | .float _ :: _ => double
  | .text _ :: _ => if isInteger then int64 else string

/-- The type of a column by its values. -/
def infer (values : List Value) : ParquetType := inferFrom false values

/-- The type of a column that is written from a column of a table with some values. -/
def ofColumn (t : ColumnType) (values : List Value) : ParquetType :=
  match t with
  | .int32 => int32
  | .int64 => int64
  | .float32 => single
  | .float64 => double
  | .string => string
  | .object => infer values

/-! ## Values of a type -/

/-- A value that a column cannot take. -/
def refuse {α : Type} : Except Failure α := .error (.defect .unfitCell)

/-- A value of a kind that a column does not take at all. -/
def refuseKind {α : Type} : Except Failure α := .error (.defect .strangeCell)

/-- A value in a column of integers. The fraction of a number is cut off. -/
def castInteger (holds : Int → Bool) : Value → Except Failure Value
  | .int n => if holds n then .ok (.int n) else .error (.defect .tooGreat)
  | .float x =>
    match (Binary.decode? x).map Binary.truncate with
    | some n => if holds n then .ok (.int n) else refuse
    | none => refuse
  | .bool _ => refuseKind
  | _ => refuse

/-- The greatest number up to which all integers are floating-point numbers. -/
def greatestExact : Int := 9007199254740992

/-- A value in a column of floating-point numbers. An integer has to be one of them. -/
def castReal : Value → Except Failure Value
  | .float x => .ok (.float x)
  | .int n =>
    if !Word.IsLong n then .error (.defect .tooGreat)
    else if (n.natAbs : Int) ≤ greatestExact then .ok (.float (Float.ofInt n))
    else refuse
  | .bool _ => refuseKind
  | _ => refuse

/-- A value in a column of a type. -/
def cast (t : ParquetType) (v : Value) : Except Failure Value :=
  match t, v with
  | _, .null => .ok .null
  | boolean, .bool b => .ok (.bool b)
  | int32, v => castInteger (fun n => decide (Word.IsInt n)) v
  | int64, v => castInteger (fun n => decide (Word.IsLong n)) v
  | single, v | double, v => castReal v
  | string, .text s => .ok (.text s)
  | string, _ => refuseKind
  | null, _ | boolean, _ => refuse

/-- A column of any type takes null. -/
theorem cast_null (t : ParquetType) : t.cast .null = .ok .null := by cases t <;> rfl

end ParquetType

/-- A columnar file: named columns, and groups of rows of values. -/
structure Parquet where
  columns : List (String × ParquetType)
  groups : List (List (List Value)) := []
  deriving DecidableEq

namespace Parquet

/-- How many rows each group has. -/
def sizes (p : Parquet) : List Nat := p.groups.map List.length

/-- The values of the column at a place. -/
def column (p : Parquet) (i : Nat) : List Value := p.groups.flatten.map fun row => row.getD i .null

/-- A table of rows as a list of columns, given their number. -/
def columnsOf (count : Nat) (rows : List (List Value)) : List (List Value) :=
  (List.range count).map fun i => rows.map fun row => row.getD i .null

/-- A row of values in the columns of a file. -/
def castRow (p : Parquet) (row : List Value) : Except Failure (List Value) :=
  (p.columns.zip row).mapM fun ((_, t), v) => t.cast v

/-- The failure of the first column that cannot take its values, or else the one given. -/
def firstFailure (p : Parquet) (rows : List (List Value)) (e : Failure) : Failure :=
  let columns := p.columns.zip (columnsOf p.columns.length rows)
  match columns.mapM fun ((_, t), values) => values.mapM t.cast with
  | .ok _ => e
  | .error e => e

/-- The values of rows in the columns of a file. -/
def castRows (p : Parquet) (rows : List (List Value)) : Except Failure (List (List Value)) :=
  (rows.mapM p.castRow).mapError (p.firstFailure rows)

/-- The file after one more group of rows. -/
def add (p : Parquet) (rows : List (List Value)) : Except Failure Parquet :=
  (p.castRows rows).map fun group => { p with groups := p.groups ++ [group] }

end Parquet

end RecordForge
