/-!
# Comma-separated text

A row is its fields with commas between them and a line feed after the last. A field is quoted when it
holds a comma, a quote or a line feed; a quote inside a quoted field is written twice. A row of one
empty field is written as two quotes, so that it is not an empty line.

* `Dialect`: what not all writers of such text agree on.
* `field`, `row`, `table`.
-/

namespace RecordForge.Csv

/-- What not all writers of such text agree on. A carriage return ends no line here, so that a field may
hold it as it is; the newer writers quote the field all the same. -/
structure Dialect where
  /-- Whether a field with a carriage return is quoted. -/
  quotesReturns : Bool := false
  deriving DecidableEq, Repr

variable (d : Dialect)

/-- Whether a field has to be quoted. -/
def needsQuotes (s : List Char) : Bool :=
  s.any fun c => c == ',' || c == '"' || c == '\n' || (d.quotesReturns && c == '\r')

/-- The characters of a quoted field, every quote written twice. -/
def doubled : List Char → List Char
  | [] => []
  | c :: s => if c = '"' then '"' :: '"' :: doubled s else c :: doubled s

/-- A field as it is written. -/
def field (s : List Char) : List Char :=
  if needsQuotes d s then '"' :: doubled s ++ ['"'] else s

/-- Fields with commas between them. -/
def joined : List (List Char) → List Char
  | [] => []
  | [f] => field d f
  | f :: rest => field d f ++ ',' :: joined rest

/-- A row of fields. -/
def row (fields : List (List Char)) : List Char :=
  if fields = [[]] then ['"', '"', '\n'] else joined d fields ++ ['\n']

/-- Rows one after the other. -/
def table (rows : List (List (List Char))) : List Char := rows.flatMap (row d)

/-- The text of two tables one after the other. -/
theorem table_append (a b : List (List (List Char))) : table d (a ++ b) = table d a ++ table d b :=
  List.flatMap_append

end RecordForge.Csv
