import RecordForge.Command.Usage
import RecordForge.Command.Validate
import RecordForge.Dialog.Session

/-!
# Asking for a strategy

* `judgeStrategy`: what is made of one answer.
* `askStrategy`: ask until a command is accepted.
-/

namespace RecordForge.Dialog

open Command

/-- The question for the strategy of a field. -/
def strategyPrompt (kind : Kind) (name : String) : String := s!"Strategy for {kind.name} '{name}':"

/-- What is made of an answer to the question for a strategy. -/
def judgeStrategy (g : Grammar) (name : String) (d : Descriptor) (line : String) :
    Verdict Strategy :=
  if line = "help" then .explain ((usage? d.kind name).getD "")
  else match readStrategy g d line with
    | .ok s => .accept s
    | .error (.complaint c) => .reject c.message
    | .error (.defect e) => .abort (.defect e)

/-- Ask for the strategy of a field until a command is accepted. -/
def askStrategy (name : String) (d : Descriptor) : Dialog Strategy :=
  match grammar? d.kind with
  | none => throw (.unsupported d.kind)
  | some g => ask (strategyPrompt d.kind name) (judgeStrategy g name d)

end RecordForge.Dialog
