import RecordForge.Avro.Container
import RecordForge.Program.CommandLine

/-!
# The command line

The program is a function of what it is started with, so all that is done here is to gather that, to
show what the function says, and to write the files. While the function ends for want of answers, one
more line is read and the function asked again: what it said before stays as it was.
-/

namespace RecordForge.CommandLine

/-- The variables of the environment that count. -/
def environment : IO (List (String × String)) :=
  ["MOCKER_FLUSH_INTERVAL", "MOCKER_OUTPUT_FORMAT", "MOCKER_SEED"].filterMapM fun name =>
    return (← IO.getEnv name).map fun text => (name, text)

/-- Whether a path is a directory. -/
def isDirectory (p : Path) : IO Bool := do
  try (← IO.FS.realPath p.toString).isDir catch _ => return false

/-- The files at some paths, and the directories on the way to them. -/
def load (paths : List Path) : IO Disk := do
  let mut disk : Disk := ⟨[], []⟩
  for p in paths do
    for d in p.steps do
      if ← isDirectory d then disk := { disk with directories := d :: disk.directories }
    try disk := disk.write p (.ofBytes (← IO.FS.readBinFile p.toString)) catch _ => pure ()
  return disk

/-- Write a file. Avro files are headed by the schema and have their blocks marked. -/
def save (schema : String) (p : Path) : Content → IO Unit
  | .text s => IO.FS.writeFile p.toString s
  | .bytes b => IO.FS.writeBinFile p.toString ⟨b.toArray⟩
  | .avro blocks => do
    let marker ← IO.getRandomBytes 16
    IO.FS.writeBinFile p.toString ⟨(Avro.fileBytes schema marker.toList blocks).toArray⟩
  | .parquet _ =>
    throw (IO.userError s!"Cannot write '{p.toString}': columnar files are kept in memory only.")

/-- Make the changes from one state of the files to another. -/
def commit (schema : String) (before after : Disk) : IO Unit := do
  for (p, _) in before.files do
    if (Ledger.get? after.files p).isNone then IO.FS.removeFile p.toString
  for (p, content) in after.changes before do
    save schema p content

/-- Show what a dialog wrote. -/
def showEvents (events : List Event) : IO Unit := do
  for e in events do
    IO.print e.out
    IO.eprint e.err
  (← IO.getStdout).flush

/-- Run the program, reading a line whenever it needs one. -/
partial def converse (w : World) (shown : Nat) : IO (Ending × Disk) := do
  let (ending, disk) := w.program
  match ending with
  | .exit _ session _ cause =>
    showEvents (session.events.drop shown)
    match cause with
    | some (.exhausted _) =>
      let line ← (← IO.getStdin).getLine
      if line.isEmpty then return (ending, disk)
      else converse { w with input := w.input ++ line } session.events.length
    | _ => return (ending, disk)
  | _ => return (ending, disk)

/-- How the program is used. -/
def usage : String :=
  "usage: recordforge --schema FILE [--result FILE] [--settings FILE] [--count N] [--seed N]\n" ++
    "                   [--format avro|csv|parquet] [--no-progress] [--verbose]"

/-- Show how the program ended, and the exit code for it. -/
def conclude : Ending → IO UInt32
  | .usage u => do
    if u = .help then IO.println usage else IO.eprintln usage
    return UInt32.ofNat u.code
  | .exit code _ reports _ => do
    for r in reports do IO.eprintln r
    return UInt32.ofNat code
  | .crash failure => do
    IO.eprintln (failure.message?.getD "The run cannot go on.")
    return 1

/-- Run the program in its surroundings. -/
def start (arguments : List String) : IO UInt32 := do
  let places := match readArguments arguments with
    | .ok a => a.places
    | .error _ => []
  let disk ← load places
  let w : World :=
    { arguments, environment := ← environment, input := "", disk, clock := ← IO.monoNanosNow
      dialect := { quotesReturns := true } }
  let (ending, after) ← converse w 0
  let schema := places.head?.bind fun p => (Schema.documentOf disk p).toOption
  let head := schema.bind fun d => (Json.text d).toOption
  commit (head.getD "") disk after
  conclude ending

end RecordForge.CommandLine

/-- Run the program. -/
def main (arguments : List String) : IO UInt32 := RecordForge.CommandLine.start arguments
