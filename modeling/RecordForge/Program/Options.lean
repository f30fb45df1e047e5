import RecordForge.Failure
import RecordForge.Number.Numeral

/-!
# Options of a run

* `RunOptions`: how a run writes and draws.
* `RunOptions.make`: options from values that have to be checked.
* `RunOptions.ofEnvironment`: options from the variables of the environment.
-/

namespace RecordForge

/-- How a run writes and draws. -/
structure RunOptions where
  /-- How many records are held before they are written. -/
  interval : Nat := 1000
  format : Format := .avro
  /-- The seed of the source; without one the clock gives it. -/
  seed : Option Int := none
  /-- Whether progress is shown. -/
  showsProgress : Bool := true
  interval_pos : 0 < interval := by decide

namespace RunOptions

/-- Options from values that have to be checked: the interval first, then the format. -/
def make (interval : Int) (format : String) (seed : Option Int) (showsProgress : Bool) :
    Except Defect RunOptions :=
  if h : 0 < interval then
    match Format.ofName? format with
    | some f => .ok ⟨interval.toNat, f, seed, showsProgress, Word.toNat_pos h⟩
    | none => .error (.unknownFormat format)
  else .error .flushInterval

/-- The integer that a setting spells. -/
def readInteger (text : String) : Except Defect Int :=
  match Numeral.integer? text.toList with
  | .ok n => .ok n
  | .error .malformed => .error (.malformedNumber text)
  | .error (.tooLong n) => .error (.longNumber n)

/-- The variable with a name, unless it is empty. -/
def setting? (environment : List (String × String)) (name : String) : Option String :=
  (environment.lookup name).filter fun s => !s.isEmpty

/-- Options from the variables of the environment. -/
def ofEnvironment (environment : List (String × String)) : Except Defect RunOptions := do
  let interval ← match setting? environment "MOCKER_FLUSH_INTERVAL" with
    | some s => readInteger s
    | none => pure 1000
  let format := (setting? environment "MOCKER_OUTPUT_FORMAT").getD Format.avro.name
  let seed ← match setting? environment "MOCKER_SEED" with
    | some s => (readInteger s).map some
    | none => pure none
  make interval format seed true

end RunOptions

end RecordForge
