import RecordForge.Dialog.Questions
import RecordForge.Dialog.Union
import RecordForge.Files.Disk
import RecordForge.Output.Writer
import RecordForge.Program.Options
import RecordForge.Recipe.Basic
import RecordForge.Schema.File

/-!
# A run

A run asks everything it has to know, and only then touches a file: whether an existing file may be
replaced, how many records to make, and how each field of the schema is generated. Then it fills one
record again and again and hands it to a writer.

* `Request`: what a run is asked to do.
* `prepare`: everything up to the first change of a file.
* `produce`: the records, and the writer after them.
* `run`: both, and the files afterwards.
-/

namespace RecordForge

/-- What a run is asked to do. -/
structure Request (σ : Type) where
  schema : Path
  options : RunOptions
  /-- The output file; without one it lies beside the schema. -/
  output : Option Path := none
  /-- The number of records; without one it is asked for. -/
  total : Option Int := none
  /-- The source of all draws, if there can be one. -/
  source : Except Defect σ
  /-- How the fields of a comma-separated file are quoted. -/
  dialect : Csv.Dialect := {}

/-- What has been settled once all questions are answered. -/
structure Plan (σ : Type) where
  output : Path
  /-- Whether an existing file is to be replaced. -/
  replaces : Bool
  total : Int
  pool : Pool
  source : σ
  writer : Writer

namespace Request

variable {σ : Type}

/-- Where a run writes to. -/
def outputPath (q : Request σ) : Except Defect Path :=
  match q.output with
  | some p => .ok p
  | none => RecordForge.outputPath q.schema q.options.format.name

/-- A result without a dialog. -/
def lift {ε α : Type} (wrap : ε → Failure) : Except ε α → Dialog α
  | .ok a => pure a
  | .error e => throw (wrap e)

/-- Settle every field of a schema. -/
def settle (fields : List Descriptor) : Dialog Dialog.Configuration := fun s =>
  match Dialog.configureFields {} fields s with
  | (none, c, s) => (.ok c, s)
  | (some e, _, s) => (.error e, s)

/-- Everything up to the first change of a file, without the question whether to replace one. -/
def plan (q : Request σ) (disk : Disk) (output : Path) (replaces : Bool) : Dialog (Plan σ) := do
  let loader ← lift id (Schema.Loader.ofFile disk q.schema)
  let total ← match q.total with
    | some n => pure n
    | none => Dialog.askCount
  let source ← lift .defect q.source
  let c ← settle loader.fields
  let writer ← lift id
    (Writer.create q.options.format loader.names q.options.interval c.kinds loader.document q.dialect)
  return ⟨output, replaces, total, c.pool, source, writer⟩

/-- Everything up to the first change of a file. Without a plan an existing file is kept. -/
def prepare (q : Request σ) (disk : Disk) : Dialog (Path × Option (Plan σ)) := do
  let output ← lift .defect q.outputPath
  if let some d := disk.refusal? output then throw (.defect d)
  let replaces := disk.exists output
  let go ← if replaces then Dialog.askClear else pure true
  if go then
    let p ← q.plan disk output replaces
    return (output, some p)
  else return (output, none)

end Request

variable {σ : Type} [Source σ]

/-- The records of a run, each handed to the writer, up to the first failure: how many there were. -/
def produceFrom (recipe : Recipe) : (left made : Nat) → Filling σ → Writer →
    Nat × Writer × Option Failure
  | 0, made, _, w => (made, w, none)
  | left + 1, made, f, w =>
    let f := fill recipe f.record f.pool f.source
    match f.failure with
    | some e => (made, w, some e)
    | none =>
      match w.append f.record with
      | (w, none) => produceFrom recipe left (made + 1) f w
      | (w, some e) => (made, w, some e)

/-- The records of a run that are asked for, each handed to the writer, up to the first failure. Their
number must be a 64-bit word. -/
def produceAll (pool : Pool) (source : σ) (total : Int) (w : Writer) :
    Nat × Writer × Option Failure :=
  if Word.maxLong < total then (0, w, some (.defect .tooGreat))
  else
    let record : Record := w.columns.map fun c => (c, .null)
    produceFrom pool.recipe total.toNat 0 ⟨none, record, pool, source⟩ w

/-- The writer closed after the records of a run. A failure to close it goes before one of the
records. -/
def produce (pool : Pool) (source : σ) (total : Int) (w : Writer) :
    Except Failure Nat × Writer :=
  let (made, w, failure) := produceAll pool source total w
  match w.close, failure with
  | (w, some e), _ => (.error e, w)
  | (w, none), some e => (.error e, w)
  | (w, none), none => (.ok made, w)

/-- The end of a run: how many records it made or why it failed, and the files afterwards. -/
structure Outcome where
  result : Except Failure Nat
  session : Session
  disk : Disk

/-- The files without the one that is to be replaced. -/
def Plan.clear (p : Plan σ) (disk : Disk) : Except Defect Disk :=
  if p.replaces then disk.remove p.output else .ok disk

/-- What keeps the output file from being written, if anything does. Before text is written, its
directory is looked for. -/
def Plan.obstacle? (p : Plan σ) (disk : Disk) : Option Defect :=
  if p.writer.format = .csv ∧ ¬disk.isDirectory p.output.parent then
    some (.unwritable p.output.toString)
  else disk.obstacle? p.output

/-- Carry out a plan. -/
def Plan.execute (p : Plan σ) (disk : Disk) (s : Session) : Outcome :=
  let s := if p.replaces then s.write (.notice "Deleting existing data file.") else s
  match p.clear disk with
  | .error d => ⟨.error (.defect d), s, disk⟩
  | .ok disk =>
    let path := p.output.toString
    let s := s.write (.notice s!"Creating {p.writer.format.name} file '{path}'")
    let s := s.write (.notice s!"Generating {Decimal.grouped p.total} records...")
    let obstacle := p.obstacle? disk
    let (result, w) := produce p.pool p.source p.total { p.writer with obstacle := obstacle }
    let disk := match w.file with
      | some c => disk.write p.output c
      | none => disk
    match result with
    | .ok n => ⟨.ok n, s.write (.notice s!"Done! {Decimal.grouped n} records generated."), disk⟩
    | .error e => ⟨.error e, s, disk⟩

/-- A whole run. -/
def Request.run (q : Request σ) (disk : Disk) (s : Session) : Outcome :=
  match (q.prepare disk).run s with
  | (.error e, s) => ⟨.error e, s, disk⟩
  | (.ok (output, none), s) =>
    let text := s!"Keeping existing data file '{output.toString}'. Nothing generated."
    ⟨.ok 0, s.write (.notice text), disk⟩
  | (.ok (_, some p), s) => p.execute disk s

end RecordForge
