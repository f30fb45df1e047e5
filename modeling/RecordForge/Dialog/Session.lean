import RecordForge.Failure
import RecordForge.Text.Blank

/-!
# A dialog as a value

A dialog asks for answers and writes prompts, notices and diagnostics. Here it is a function of the
answers: what has been written so far is part of its state, so what a dialog does can be compared
between two lists of answers.

* `Session`: the answers that are left and the events so far.
* `Dialog`: a computation on sessions that may fail and keeps the session when it does.
* `ask`: ask one question until an answer is accepted.
* `Session.out`, `Session.err`: the texts of the two channels.
-/

namespace RecordForge

/-- One thing that a dialog writes. -/
inductive Event where
  /-- A question; the answer follows on its line. -/
  | prompt (text : String)
  /-- A line of information. -/
  | notice (text : String)
  /-- A line of complaint. -/
  | diagnostic (text : String)
  deriving DecidableEq, Repr

namespace Event

/-- What an event adds to the channel of prompts and notices. -/
def out : Event → String
  | prompt text => text
  | notice text => text ++ "\n"
  | diagnostic _ => ""

/-- What an event adds to the channel of diagnostics. -/
def err : Event → String
  | diagnostic text => text ++ "\n"
  | _ => ""

end Event

/-- The state of a dialog. -/
structure Session where
  /-- The answers that have not been read. -/
  answers : List String
  /-- What has been written, oldest first. -/
  events : List Event := []
  deriving Repr

namespace Session

/-- The text of the channel of prompts and notices. -/
def out (s : Session) : String := String.join (s.events.map Event.out)

/-- The text of the channel of diagnostics. -/
def err (s : Session) : String := String.join (s.events.map Event.err)

/-- The session after writing an event. -/
def write (s : Session) (e : Event) : Session := { s with events := s.events ++ [e] }

end Session

/-- A computation in a dialog. -/
abbrev Dialog (α : Type) := ExceptT Failure (StateM Session) α

/-- What is made of one answer. -/
inductive Verdict (α : Type) where
  /-- It is what was asked for. -/
  | accept (a : α)
  /-- It asks for help; the text is shown and the question asked again. -/
  | explain (text : String)
  /-- It is refused with a diagnostic, and the question asked again. -/
  | reject (text : String)
  /-- It ends the dialog. -/
  | abort (failure : Failure)

/-- An answer as it is judged: without the blanks around it. -/
def trimmed (answer : String) : String := String.ofList (Text.trim answer.toList)

/-- Ask for one answer of those given, after the events given. -/
def readAnswer (prompt : String) : Dialog String := fun s =>
  match s.answers with
  | [] => (.error (.exhausted (trimmed prompt)), s.write (.prompt prompt))
  | a :: rest => (.ok (trimmed a), { answers := rest, events := s.events ++ [.prompt prompt] })

/-- Ask a question of a list of answers until one is accepted. -/
def askFrom {α : Type} (prompt : String) (judge : String → Verdict α) :
    List String → List Event → Except Failure α × Session
  | [], events => (.error (.exhausted (trimmed prompt)), ⟨[], events ++ [.prompt prompt]⟩)
  | a :: rest, events =>
    match judge (trimmed a) with
    | .accept x => (.ok x, ⟨rest, events ++ [.prompt prompt]⟩)
    | .explain text => askFrom prompt judge rest (events ++ [.prompt prompt, .notice text])
    | .reject text => askFrom prompt judge rest (events ++ [.prompt prompt, .diagnostic text])
    | .abort failure => (.error failure, ⟨rest, events ++ [.prompt prompt]⟩)

/-- Ask a question until an answer is accepted. -/
def ask {α : Type} (prompt : String) (judge : String → Verdict α) : Dialog α := fun s =>
  askFrom prompt judge s.answers s.events

end RecordForge
