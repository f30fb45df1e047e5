import RecordForge.Dialog.Session
import RecordForge.Schema.Json

/-!
# The questions of a run

* `askClear`: whether an existing file may be replaced.
* `askCount`: how many records to make.
-/

namespace RecordForge.Dialog

/-- What is made of an answer to the question whether to replace a file. -/
def judgeClear (line : String) : Verdict Bool :=
  if line = "Y" ∨ line = "y" then .accept true
  else if line = "N" ∨ line = "n" then .accept false
  else .reject "Please answer either 'Y' for yes or 'N' for no."

/-- Ask whether an existing file may be replaced. -/
def askClear : Dialog Bool := ask "Clear existing data? Y/N: " judgeClear

/-- What is made of an answer to the question for the number of records. -/
def judgeCount (line : String) : Verdict Int :=
  let ds := line.toList
  if !ds.isEmpty && ds.all Json.isAsciiDigit then
    if Numeral.digitLimit < ds.length then .abort (.defect (.longNumber ds.length))
    else .accept (Text.numberOf ds)
  else .reject "Please enter a whole number of records."

/-- Ask how many records to make. -/
def askCount : Dialog Int := ask "How many records should be generated: " judgeCount

end RecordForge.Dialog
