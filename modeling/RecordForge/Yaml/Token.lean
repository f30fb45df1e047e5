import RecordForge.Yaml.Text

/-!
# Tokens

The words and signs of a YAML text. Where indentation opens or closes a collection there is a token
of its own, so the tree can be read from the tokens alone.

* `Token`: the tokens.
* `anchorName?`, `tag?`, `directive?`: the names that anchors, aliases, tags and directives give.
-/

namespace RecordForge.Yaml

/-- What a line that starts with a percent sign says. -/
inductive Directive where
  /-- The version of the notation. -/
  | version (major : Nat)
  /-- What tags with a handle start with. -/
  | handle (name start : String)
  /-- Something that is not understood. -/
  | other
  deriving DecidableEq

/-- A word or a sign. -/
inductive Token where
  | directive (d : Directive)
  | documentStart
  | documentEnd
  | blockSequence
  | blockMapping
  | blockEnd
  | flowSequence
  | flowSequenceEnd
  | flowMapping
  | flowMappingEnd
  /-- The sign before an item of a block sequence. -/
  | item
  | comma
  | key
  | value
  | alias (name : String)
  | anchor (name : String)
  | tag (handle : Option String) (suffix : String)
  | scalar (text : List Text.Piece) (isPlain : Bool)
  deriving DecidableEq

/-! ## Names -/

/-- The characters of names: ASCII letters and digits, the hyphen and the underscore. -/
def isNameChar (c : Char) : Bool :=
  ('0' ≤ c && c ≤ '9') || ('a' ≤ c && c ≤ 'z') || ('A' ≤ c && c ≤ 'Z') || c == '-' || c == '_'

/-- The name after the sign of an anchor or an alias. -/
def anchorName? (c : Cursor) : Option (String × Cursor) :=
  let (name, c) := c.span isNameChar
  if name.isEmpty then none
  else if isGap c.peek || "?:,]\x7d%@\x60".toList.contains c.peek then some (String.ofList name, c)
  else none

/-- The characters that an address may hold besides those of names and escapes. -/
def isAddressSign (c : Char) : Bool := ";/?:@&=+$,.!~*'()[]".toList.contains c

/-- The characters of an address, of which a percent sign needs two hexadecimal digits after it. -/
def addressChars? : List Char → Option (List Char)
  | [] => some []
  | '%' :: a :: b :: rest =>
    if (Json.hexDigit? a).isSome && (Json.hexDigit? b).isSome then
      (addressChars? rest).map fun more => '%' :: a :: b :: more
    else none
  | ['%'] => none
  | ['%', _] => none
  | x :: rest =>
    if isNameChar x || isAddressSign x then (addressChars? rest).map fun more => x :: more
    else some []

/-- The bytes of an address with its escapes resolved. -/
def addressBytes : List Char → List UInt8
  | [] => []
  | '%' :: a :: b :: rest =>
    UInt8.ofNat ((Json.hexDigit? a).getD 0 * 16 + (Json.hexDigit? b).getD 0) :: addressBytes rest
  | c :: rest => UInt8.ofNat c.toNat :: addressBytes rest

/-- The address that a text goes on with. Its escapes have to spell characters. -/
def address? (c : Cursor) : Option (String × Cursor) :=
  match addressChars? c.rest with
  | none => none
  | some [] => none
  | some s =>
    (String.fromUTF8? ⟨(addressBytes s).toArray⟩).map fun address => (address, c.forward s.length)

/-! ## Tags -/

/-- The handle of a tag: a name between two exclamation marks, or one mark alone before a space. -/
def handle? (c : Cursor) : Option (String × Cursor) :=
  if c.peek ≠ '!' then none
  else if c.peekAt 1 = ' ' then some ("!", c.step)
  else
    let (name, c) := c.step.span isNameChar
    if c.peek = '!' then some (String.ofList ('!' :: name ++ ['!']), c.step) else none

/-- A tag between angle brackets, after the opening one. -/
def verbatimTag? (c : Cursor) : Option (Token × Cursor) :=
  match address? c with
  | some (suffix, c) => if c.peek = '>' then some (.tag none suffix, c.step) else none
  | none => none

/-- A tag with a handle, or with the handle of one mark. -/
def shortTag? (c : Cursor) : Option (Token × Cursor) := do
  let word := c.step.rest.takeWhile fun x => !isSpaceOrEnd x
  let (handle, c) ← if word.contains '!' then handle? c else some ("!", c.step)
  let (suffix, c) ← address? c
  return (.tag (some handle) suffix, c)

/-- The tag that a text goes on with. -/
def tag? (c : Cursor) : Option (Token × Cursor) := do
  let (token, c) ←
    if c.peekAt 1 = '<' then verbatimTag? (c.forward 2)
    else if isGap (c.peekAt 1) then some (Token.tag none "!", c.step)
    else shortTag? c
  if isSpaceOrEnd c.peek then return (token, c) else none

/-! ## Directives -/

/-- The number that a text goes on with. -/
def versionPart? (c : Cursor) : Option (Nat × Cursor) :=
  let (ds, c) := c.span Json.isAsciiDigit
  if ds.isEmpty then none else some (Text.numberOf ds, c)

/-- The version after its name. -/
def version? (c : Cursor) : Option (Directive × Cursor) := do
  let (major, c) ← versionPart? c.skipSpaces
  if c.peek ≠ '.' then none
  let (_, c) ← versionPart? c.step
  if isSpaceOrEnd c.peek then return (.version major, c) else none

/-- A handle and what its tags start with, after the name of the directive. -/
def handleDirective? (c : Cursor) : Option (Directive × Cursor) := do
  let (name, c) ← handle? c.skipSpaces
  if c.peek ≠ ' ' then none
  let (start, c) ← address? c.skipSpaces
  if isSpaceOrEnd c.peek then return (.handle name start, c) else none

/-- The directive after its percent sign, and the cursor after its line. -/
def directive? (c : Cursor) : Option (Token × Cursor) := do
  let (name, c) := c.span isNameChar
  if name.isEmpty || !isSpaceOrEnd c.peek then none
  let (d, c) ←
    if name = "YAML".toList then version? c
    else if name = "TAG".toList then handleDirective? c
    else some (Directive.other, c.skip fun x => !isBreak x)
  let c := c.skipSpaces.skipComment
  match c.lineBreak? with
  | some (_, c) => return (.directive d, c)
  | none => if c.rest.isEmpty then return (.directive d, c) else none

end RecordForge.Yaml
