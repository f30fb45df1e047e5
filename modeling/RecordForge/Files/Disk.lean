import RecordForge.Files.Path
import RecordForge.Output.Content
import RecordForge.Text.Lines

/-!
# Files as values

* `Disk`: the directories that are there, and files.
* `Disk.settle`: a path without steps upwards.
* `Disk.exists`, `Disk.text?`, `Disk.write`, `Disk.remove`: what a run does with files.
* `Disk.refusal?`: what keeps a path from being looked for.
* `Disk.obstacle?`: what keeps a file from being written.
* `Disk.changes`: the files that are new or changed.
-/

namespace RecordForge

/-- Directories that are there, and files. The directories above them are there, too. -/
structure Disk where
  directories : List Path
  files : Ledger Path Content

namespace Disk

/-! ## Paths -/

/-- Whether a path without steps upwards, other than at its start, is a directory. -/
def hasDirectory (d : Disk) (p : Path) : Bool :=
  p.parts.all (· == "..") || d.directories.any (·.isWithin p) ||
    d.files.any fun (f, _) => f.isWithin p && f != p

/-- Whether a path without steps upwards, other than at its start, is a file. -/
def hasFile (d : Disk) (p : Path) : Bool := (Ledger.get? d.files p).isSome

/-- Why a path that should be a directory is none. -/
def whyNoDirectory (d : Disk) (p : Path) : Defect :=
  if d.files.any fun (f, _) => p.isWithin f then .notDirectory p.toString else .notFound p.toString

/-- The path one step up; above its root there is only the root. -/
def up (p : Path) : Path :=
  match p.parts.getLast? with
  | none => if p.root = "" then { p with parts := [".."] } else p
  | some ".." => { p with parts := p.parts ++ [".."] }
  | some _ => p.parent

/-- A path followed from a directory. A step upwards needs a directory to start from. -/
def settleFrom (d : Disk) (p : Path) : List String → Except Defect Path
  | [] => .ok p
  | s :: rest =>
    if s = ".." then
      if d.hasDirectory p then d.settleFrom (up p) rest else .error (d.whyNoDirectory p)
    else d.settleFrom { p with parts := p.parts ++ [s] } rest

/-- A path without steps upwards, other than at its start. -/
def settle (d : Disk) (p : Path) : Except Defect Path := d.settleFrom { p with parts := [] } p.parts

/-! ## Reading -/

/-- Whether a path is a directory. -/
def isDirectory (d : Disk) (p : Path) : Bool :=
  match d.settle p with
  | .ok p => d.hasDirectory p
  | .error _ => false

/-- Whether a path is there. -/
def «exists» (d : Disk) (p : Path) : Bool :=
  match d.settle p with
  | .ok p => d.hasFile p || d.hasDirectory p
  | .error _ => false

/-- The greatest number of bytes that a name may have. -/
def nameLimit : Nat := 255

/-- What keeps a path from being looked for, if anything does: a name that is too long, in a directory
that is there. -/
def refusal? (d : Disk) (p : Path) : Option Defect :=
  match d.settle p with
  | .ok p =>
    let isTooLong (q : Path) : Bool := nameLimit < q.name.utf8ByteSize && d.hasDirectory q.parent
    if p.steps.any isTooLong then some (.longName p.toString) else none
  | .error _ => none

/-- The text of a file, with every line end a line feed, if it is there and is text. -/
def text? (d : Disk) (p : Path) : Option (List Char) :=
  match d.settle p with
  | .ok p =>
    match Ledger.get? d.files p with
    | some (.text s) => some (Text.unifyNewlines s.toList)
    | _ => none
  | .error _ => none

/-! ## Writing -/

/-- What keeps a file from being written at a path, if anything does. -/
def obstacle? (d : Disk) (p : Path) : Option Defect :=
  match d.settle p with
  | .ok p =>
    if d.hasDirectory p then some (.isDirectory p.toString)
    else if d.hasDirectory p.parent then none
    else some (d.whyNoDirectory p.parent)
  | .error e => some e

/-- The files after writing one. -/
def write (d : Disk) (p : Path) (c : Content) : Disk :=
  match d.settle p with
  | .ok p => { d with files := Ledger.set d.files p c }
  | .error _ => d

/-- The files without one of them; a directory cannot be removed. -/
def remove (d : Disk) (p : Path) : Except Defect Disk :=
  (d.settle p).bind fun p =>
    if d.hasDirectory p then .error (.isDirectory p.toString)
    else .ok { d with files := d.files.filter fun (f, _) => f ≠ p }

/-- The files that are new or changed since another state. -/
def changes (d before : Disk) : List (Path × Content) :=
  d.files.filter fun (f, c) => Ledger.get? before.files f ≠ some c

end Disk

end RecordForge
