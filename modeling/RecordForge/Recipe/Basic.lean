import RecordForge.Generator.Basic
import RecordForge.Ledger

/-!
# Recipes

A recipe says which generator fills which field of a record, in order. The generators themselves live
in a pool, so that one of them may fill several fields, or fields of several recipes.

* `Pool`: generators by name; `Pool.next` takes a value from one of them.
* `Recipe`: fields with the names of their generators.
* `fill`: write the next value of every generator into a record. A failure leaves the record as the
  fields before it made it.
-/

namespace RecordForge

/-- Generators by name. -/
abbrev Pool := Ledger String Generator

/-- Fields with the names of the generators that fill them, in order. -/
abbrev Recipe := List (String × String)

variable {σ : Type} [Source σ]

/-- The next value of a generator of a pool, the pool after it and the source after it. -/
def Pool.next (p : Pool) (name : String) (s : σ) : Except Failure Value × Pool × σ :=
  match Ledger.get? p name with
  | none => (.error (.defect .noSuchItem), p, s)
  | some g =>
    let (v, g, s) := g.next s
    (v, Ledger.set p name g, s)

/-- What filling a record leads to. -/
structure Filling (σ : Type) where
  failure : Option Failure
  record : Record
  pool : Pool
  source : σ

/-- Write the next value of every generator of a recipe into a record. -/
def fill : Recipe → Record → Pool → σ → Filling σ
  | [], record, pool, s => ⟨none, record, pool, s⟩
  | (field, name) :: rest, record, pool, s =>
    match pool.next name s with
    | (.ok v, pool, s) => fill rest (Ledger.set record field v) pool s
    | (.error e, pool, s) => ⟨some e, record, pool, s⟩

/-- The recipe that fills each field with the generator under its own name. -/
def Pool.recipe (p : Pool) : Recipe := (Ledger.keys p).map fun name => (name, name)

/-- The records that come of filling one record again and again, each as it is after its filling, and
the last filling. -/
def fillTimes (recipe : Recipe) : (count : Nat) → Filling σ → List Record × Filling σ
  | 0, f => ([], f)
  | count + 1, f =>
    let f := fill recipe f.record f.pool f.source
    match f.failure with
    | some _ => ([], f)
    | none =>
      let (records, f') := fillTimes recipe count f
      (f.record :: records, f')

end RecordForge
