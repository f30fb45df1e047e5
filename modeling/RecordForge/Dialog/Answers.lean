import RecordForge.Failure
import RecordForge.Files.Disk

/-!
# Where answers come from

Answers are the lines of a file of recorded answers, if there is one, and then the lines of a stream.
The two are cut into lines by different rules.

* `streamAnswers`, `recordedAnswers`.
-/

namespace RecordForge.Dialog

/-- The answers typed on a stream. -/
def streamAnswers (stream : String) : List String :=
  (Text.streamLines stream.toList).map String.ofList

/-- The answers of a file of recorded answers. -/
def recordedAnswers (disk : Disk) (path : Path) : Except Failure (List String) :=
  match disk.text? path with
  | some text => .ok ((Text.recordLines text).map String.ofList)
  | none => .error (.unreadableSettings path.toString)

/-- The answers of a file, if one is given, and then those of a stream. -/
def answersOf (disk : Disk) (settings : Option Path) (stream : String) :
    Except Failure (List String) :=
  match settings with
  | none => .ok (streamAnswers stream)
  | some path => (recordedAnswers disk path).map (· ++ streamAnswers stream)

end RecordForge.Dialog
