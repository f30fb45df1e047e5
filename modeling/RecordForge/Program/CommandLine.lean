import RecordForge.Dialog.Answers
import RecordForge.Draw.Supply
import RecordForge.Program.Arguments
import RecordForge.Program.Run

/-!
# The program as a function

* `World`: what a program is started with.
* `Arguments.places`: the files that matter to it.
* `Ending`: how a program ends.
* `program`: what a program does, and the files afterwards.
-/

namespace RecordForge

/-- What a program is started with. -/
structure World where
  arguments : List String
  environment : List (String × String)
  input : String
  disk : Disk
  /-- The seed of a source that is given none. -/
  clock : Nat
  /-- How numbers of the standard normal distribution are drawn. -/
  normal : Congruential → Float × Congruential := Congruential.polar
  /-- How the fields of a comma-separated file are quoted. -/
  dialect : Csv.Dialect := {}

/-- The files that a run with some arguments may read or write, whatever its format turns out to be. -/
def Arguments.places (a : Arguments) : List Path :=
  let schema := Path.ofString a.schema
  let results := match a.result with
    | some s => [Path.ofString s]
    | none => Format.all.filterMap fun f => (outputPath schema f.name).toOption
  schema :: (a.settings.map Path.ofString).toList ++ results

/-- How a program ends. -/
inductive Ending where
  /-- With an exit code, after what was written and reported, and perhaps because of a failure. -/
  | exit (code : Nat) (session : Session) (reports : List String) (cause : Option Failure)
  /-- With a text about its use. -/
  | usage (u : Usage)
  /-- With a failure that is not diagnosed. -/
  | crash (failure : Failure)

namespace World

/-- The options of a run: those of the environment, and the arguments over them. -/
def options (w : World) (a : Arguments) : Except Defect RunOptions := do
  let o ← RunOptions.ofEnvironment w.environment
  return { o with
    seed := a.seed <|> o.seed
    format := a.format.getD o.format
    showsProgress := o.showsProgress && !a.hidesProgress }

/-- The end of a program that reports what is wrong. -/
def refuse (w : World) (report : String) : Ending × Disk := (.exit 1 ⟨[], []⟩ [report] none, w.disk)

/-- What the outcome of a run makes of the program. -/
def conclude (o : Outcome) : Ending × Disk :=
  match o.result with
  | .ok _ => (.exit 0 o.session [] none, o.disk)
  | .error e =>
    if e.isDiagnosis then (.exit 1 o.session [e.message?.getD ""] (some e), o.disk)
    else (.crash e, o.disk)

/-- The run that the arguments ask for. -/
def start (w : World) (a : Arguments) (options : RunOptions) : Ending × Disk :=
  match Dialog.answersOf w.disk (a.settings.map Path.ofString) w.input with
  | .error e => w.refuse (e.message?.getD "")
  | .ok answers =>
    let request : Request Supply :=
      { schema := .ofString a.schema
        options := options
        output := a.result.map Path.ofString
        total := a.count
        source := Supply.ofSeed (options.seed.getD w.clock) w.normal
        dialect := w.dialect }
    conclude (request.run w.disk ⟨answers, []⟩)

/-- A program with arguments of a run. -/
def serve (w : World) (a : Arguments) : Ending × Disk :=
  match w.options a with
  | .error d => w.refuse s!"Invalid configuration: {d.report}"
  | .ok options =>
    if a.count.any fun n => n < 0 then w.refuse "--count must not be negative"
    else
      let settings := a.settings.map Path.ofString
      match settings.bind w.disk.refusal?, settings.filter fun p => !w.disk.exists p with
      | some d, _ => (.crash (.defect d), w.disk)
      | none, some p => w.refuse s!"Specified settings file '{p.toString}' does not exist."
      | none, none => w.start a options

/-- What a program does, and the files afterwards. -/
def program (w : World) : Ending × Disk :=
  match readArguments w.arguments with
  | .error u => (.usage u, w.disk)
  | .ok a => w.serve a

end World

end RecordForge
