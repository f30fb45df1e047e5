import RecordForge.Avro.Encoding

/-!
# Blocks of an Avro file

After its header an Avro file is a sequence of blocks. A block says how many records it holds and holds
their bytes one after the other. A block is written as soon as it has `blockSize` bytes, and what is
left when the records end makes the last one.

* `Block`, `blocksOf`.
* `Block.total`, `Block.bytes`: the records and the bytes of several blocks.
-/

namespace RecordForge.Avro

/-- A block of records. -/
structure Block where
  count : Nat
  data : List UInt8
  deriving DecidableEq

/-- How many bytes fill a block. -/
def blockSize : Nat := 16000

/-- A block as long as it grows: its records are kept in reverse, to be joined when it is written. -/
structure Growing where
  count : Nat := 0
  size : Nat := 0
  reversed : List (List UInt8) := []

/-- The block after one more record. -/
def Growing.add (g : Growing) (bytes : List UInt8) : Growing :=
  ⟨g.count + 1, g.size + bytes.length, bytes :: g.reversed⟩

/-- The block as it is written. -/
def Growing.close (g : Growing) : Block := ⟨g.count, g.reversed.reverse.flatten⟩

/-- The blocks that records make, up to the first that cannot be encoded. -/
def blocksOf (schema : AvroSchema) : List Record → Growing → List Block × Option Failure
  | [], g => (if g.count = 0 then [] else [g.close], none)
  | r :: rest, g =>
    match schema.encodeRecord r with
    | .error e => ([], some e)
    | .ok bytes =>
      let g := g.add bytes
      if blockSize ≤ g.size then
        let (blocks, failure) := blocksOf schema rest {}
        (g.close :: blocks, failure)
      else blocksOf schema rest g

/-- How many records some blocks hold. -/
def total : List Block → Nat
  | [] => 0
  | b :: rest => b.count + total rest

/-- The bytes of the records of some blocks. -/
def bytes (blocks : List Block) : List UInt8 := blocks.flatMap Block.data

end RecordForge.Avro
