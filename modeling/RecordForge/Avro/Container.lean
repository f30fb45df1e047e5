import RecordForge.Avro.Blocks

/-!
# Avro files as bytes

A file starts with a header: four fixed bytes, a map with the schema and the name of the compression,
and a marker of sixteen bytes. Each block is its number of records, its number of bytes, its bytes and
the marker again.

* `fileBytes`: the bytes of a file.
-/

namespace RecordForge.Avro

/-- The bytes that every file starts with. -/
def magic : List UInt8 := [0x4F, 0x62, 0x6A, 0x01]

/-- The bytes before the first block, for a schema in JSON. -/
def headerBytes (schema : String) (marker : List UInt8) : List UInt8 :=
  magic ++ encodeInt 2 ++ encodeText "avro.codec" ++ encodeText "null" ++
    encodeText "avro.schema" ++ encodeText schema ++ encodeInt 0 ++ marker

/-- The bytes of a block. -/
def blockBytes (marker : List UInt8) (b : Block) : List UInt8 :=
  encodeInt b.count ++ encodeInt b.data.length ++ b.data ++ marker

/-- The bytes of a file, for a schema in JSON. -/
def fileBytes (schema : String) (marker : List UInt8) (blocks : List Block) : List UInt8 :=
  headerBytes schema marker ++ blocks.flatMap (blockBytes marker)

end RecordForge.Avro
