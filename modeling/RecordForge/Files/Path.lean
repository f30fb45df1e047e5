import RecordForge.Failure

/-!
# Paths

A path is a root, which may be empty, and the names below it. Doubled and trailing slashes and single
points do not count, but exactly two slashes at the start are a root of their own.

* `Path.ofString`, `Path.toString`: reading and writing.
* `Path.name`, `Path.suffix`: the last name, and what follows its last point.
* `Path.withSuffix`: the path with another suffix.
-/

namespace RecordForge

/-- The place of a file. -/
structure Path where
  root : String
  parts : List String
  deriving DecidableEq, Repr

namespace Path

/-- The pieces of a text between its slashes. -/
def split : List Char → List (List Char)
  | [] => [[]]
  | c :: s =>
    if c = '/' then [] :: split s
    else match split s with
      | [] => [[c]]
      | p :: ps => (c :: p) :: ps

/-- The root of a path. -/
def rootOf : List Char → String
  | '/' :: '/' :: '/' :: _ => "/"
  | '/' :: '/' :: _ => "//"
  | '/' :: _ => "/"
  | _ => ""

/-- The path that a text spells. -/
def ofString (s : String) : Path :=
  ⟨rootOf s.toList, (((split s.toList).map String.ofList).filter fun p => p ≠ "" && p ≠ ".")⟩

/-- A path as text. -/
def toString (p : Path) : String :=
  if p.root = "" ∧ p.parts = [] then "." else p.root ++ "/".intercalate p.parts

/-- The path of a text below a path; a text with a root of its own is not below it. -/
def join (p : Path) (s : String) : Path :=
  let q := ofString s
  if q.root = "" then ⟨p.root, p.parts ++ q.parts⟩ else q

/-- The last name of a path, empty if it has none. -/
def name (p : Path) : String := p.parts.getLast?.getD ""

/-- A name cut before its last point, unless that is its first or its last character. -/
def cutSuffix (name : List Char) : List Char × List Char :=
  let suffix := (name.reverse.takeWhile (· != '.')).reverse
  let stem := name.take (name.length - suffix.length - 1)
  if name.contains '.' && !stem.isEmpty && !suffix.isEmpty then (stem, '.' :: suffix) else (name, [])

/-- The suffix of a path with its point, empty if it has none. -/
def suffix (p : Path) : String := String.ofList (cutSuffix p.name.toList).2

/-- The path with another suffix. A suffix starts with a point, has more than that and no slash; and
the path has to name a file. -/
def withSuffix (p : Path) (suffix : String) : Except Defect Path :=
  let proper := match suffix.toList with
    | [] => true
    | '.' :: s => !s.isEmpty && !s.contains '/'
    | _ => false
  if !proper || p.name = "" then .error .noFileName
  else
    let stem := String.ofList (cutSuffix p.name.toList).1
    .ok { p with parts := p.parts.dropLast ++ [stem ++ suffix] }

/-- Whether one path lies below another, or is it. -/
def isWithin (p dir : Path) : Bool := p.root == dir.root && dir.parts.isPrefixOf p.parts

/-- The directory that a path lies in. -/
def parent (p : Path) : Path := { p with parts := p.parts.dropLast }

/-- The paths that a path passes, itself at the end. -/
def steps (p : Path) : List Path :=
  (List.range (p.parts.length + 1)).map fun n => { p with parts := p.parts.take n }

end Path

/-- The output file beside a schema: the name of the format as its suffix. -/
def outputPath (schema : Path) (format : String) : Except Defect Path :=
  schema.withSuffix ("." ++ format)

end RecordForge
