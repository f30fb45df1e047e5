import RecordForge.Failure

/-!
# What reading a text gives

* `TextFault`: why a text gives no document.
* `Parsed`: a document, a part of one, or such a fault.
-/

namespace RecordForge

/-- Why a text gives no document. -/
inductive TextFault where
  /-- The text breaks a rule of its notation. -/
  | malformed
  /-- The text asks for what cannot be made. -/
  | defect (d : Defect)
  deriving DecidableEq

/-- A document or a part of one, if the text gives any. -/
abbrev Parsed (α : Type) := Except TextFault α

/-- What is there; the text is malformed if it is not. -/
def Parsed.ofOption {α : Type} : Option α → Parsed α
  | some a => .ok a
  | none => .error .malformed

/-- The failure that a fault of the text of a file is. -/
def TextFault.toFailure (path : String) : TextFault → Failure
  | malformed => .schema (.unreadable path)
  | defect d => .defect d

end RecordForge
