import RecordForge.Files.Disk
import RecordForge.Schema.Json
import RecordForge.Schema.Loader
import RecordForge.Yaml.Reader

/-!
# Schema files

* `documentOf`: the document of a file, in the notation that its suffix tells.
* `Loader.loadFile`: the loader after a file.
-/

namespace RecordForge.Schema

/-- Whether a suffix is one of YAML files, whatever the case of its letters. -/
def isYaml (suffix : String) : Bool :=
  let s := String.ofList (suffix.toList.map Numeral.lowerAscii)
  s == ".yaml" || s == ".yml"

/-- The document of a text in JSON. -/
def readJson (text : List Char) : Parsed Document :=
  if Json.isTooDeep text then .error (.defect .tooDeep)
  else Parsed.ofOption (Json.read? (String.ofList text))

/-- The document of a file, which has to be there and be one. -/
def documentOf (disk : Disk) (path : Path) : Except Failure Document :=
  let read := if isYaml path.suffix then Yaml.read else readJson
  ((Parsed.ofOption (disk.text? path)).bind read).mapError (TextFault.toFailure path.toString)

/-- The loader after a file. A file without a document leaves the loader as it was. -/
def Loader.loadFile (l : Loader) (disk : Disk) (path : Path) : Loader × Option Failure :=
  match documentOf disk path with
  | .ok d => l.load d
  | .error e => (l, some e)

/-- The loader of a file alone. -/
def Loader.ofFile (disk : Disk) (path : Path) : Except Failure Loader :=
  match Loader.loadFile {} disk path with
  | (l, none) => .ok l
  | (_, some e) => .error e

end RecordForge.Schema
