import RecordForge.Avro.Blocks
import RecordForge.Output.Parquet

/-!
# What a file holds

* `Content`: text, other bytes, or the records of an output file.
-/

namespace RecordForge

/-- What a file holds. -/
inductive Content where
  | text (s : String)
  | bytes (b : List UInt8)
  | avro (blocks : List Avro.Block)
  | parquet (p : Parquet)
  deriving DecidableEq

/-- The content with some bytes: text if it is any. -/
def Content.ofBytes (b : ByteArray) : Content :=
  match String.fromUTF8? b with
  | some s => .text s
  | none => .bytes b.toList

end RecordForge
