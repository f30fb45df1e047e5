import RecordForge.Yaml.Token

/-!
# From a text to tokens

A mapping shows only at the colon after its first key, so the place of each token that may turn out
to be a key is kept until the colon comes or the line ends.

* `Lexer`: the tokens read so far and what they leave open.
* `Token.ofText?`: the tokens of a text.
-/

namespace RecordForge.Yaml

/-- A token that turns out to be a key if a colon follows. -/
structure PossibleKey where
  /-- How many tokens stand before it. -/
  place : Nat
  /-- Whether it stands where only a key may stand. -/
  isRequired : Bool
  index : Nat
  line : Nat
  column : Nat

/-- The greatest number of characters from the start of a key to its colon. -/
def keyReach : Nat := 1024

/-- The tokens read so far and what they leave open. -/
structure Lexer where
  cursor : Cursor
  /-- The tokens, the last one first. -/
  tokens : List Token := []
  /-- The columns of the open block collections, the innermost first. -/
  indents : List Nat := []
  /-- The possible key of each open flow collection, the innermost first, and of the block around. -/
  keys : List (Option PossibleKey) := [none]
  /-- Whether a key may start at the cursor. -/
  allowsKey : Bool := true

namespace Lexer

/-- Whether a flow collection is open. -/
def inFlow (l : Lexer) : Bool := 1 < l.keys.length

/-- The column of the innermost block collection, -1 outside of all. -/
def indent (l : Lexer) : Int :=
  match l.indents with
  | [] => -1
  | n :: _ => n

/-- The lexer after one more token. -/
def emit (l : Lexer) (t : Token) : Lexer := { l with tokens := t :: l.tokens }

/-- The lexer after one more token that some characters spell. -/
def take (l : Lexer) (t : Token) (length : Nat) : Lexer :=
  { l with tokens := t :: l.tokens, cursor := l.cursor.forward length }

/-- The lexer after a token that was put in behind a number of tokens. -/
def insert (l : Lexer) (place : Nat) (t : Token) : Lexer :=
  let later := l.tokens.length - place
  { l with tokens := l.tokens.take later ++ t :: l.tokens.drop later }

/-- The lexer at which a key may, or may not, start. -/
def allowing (l : Lexer) (b : Bool) : Lexer := { l with allowsKey := b }

/-! ## Possible keys -/

/-- The possible key of the innermost collection. -/
def key? (l : Lexer) : Option PossibleKey := l.keys.head?.bind id

/-- The lexer with another possible key for the innermost collection. -/
def setKey (l : Lexer) (key : Option PossibleKey) : Lexer := { l with keys := key :: l.keys.tail }

/-- The lexer without the possible key of the innermost collection, which must not be a required
one. -/
def dropKey? (l : Lexer) : Option Lexer :=
  match l.key? with
  | some key => if key.isRequired then none else some (l.setKey none)
  | none => some (l.setKey none)

/-- The lexer that keeps the place of the token at the cursor if a key may start there. -/
def saveKey? (l : Lexer) : Option Lexer :=
  if l.allowsKey then
    let c := l.cursor
    let isRequired := !l.inFlow && l.indent == c.column
    l.dropKey?.map fun l => l.setKey (some ⟨l.tokens.length, isRequired, c.index, c.line, c.column⟩)
  else some l

/-- Whether a possible key is out of reach for a colon at the cursor. -/
def isStale (l : Lexer) (key : PossibleKey) : Bool :=
  key.line != l.cursor.line || keyReach < l.cursor.index - key.index

/-- The lexer without the possible keys that are out of reach, none of which must be required. -/
def dropStale? (l : Lexer) : Option Lexer :=
  let judge (key : Option PossibleKey) : Option (Option PossibleKey) :=
    match key with
    | none => some none
    | some key =>
      if l.isStale key then if key.isRequired then none else some none else some (some key)
  (l.keys.mapM judge).map fun keys => { l with keys := keys }

/-! ## Indentation -/

/-- The lexer after closing the block collections right of a column. -/
def closeTo (l : Lexer) (column : Int) : Lexer :=
  if l.inFlow then l
  else
    let closed := l.indents.takeWhile fun (n : Nat) => column < n
    { l with
      indents := l.indents.drop closed.length
      tokens := List.replicate closed.length .blockEnd ++ l.tokens }

/-- The lexer after opening a block collection at a column, unless one is open there. -/
def openAt (l : Lexer) (column place : Nat) (t : Token) : Lexer :=
  if !l.inFlow && l.indent < (column : Int) then
    { l with indents := column :: l.indents }.insert place t
  else l

/-- The lexer after opening a block collection at the cursor, unless one is open there. In a block
this needs a place where a key may start. -/
def openHere? (l : Lexer) (t : Token) : Option Lexer :=
  if l.inFlow || l.allowsKey then some (l.openAt l.cursor.column l.tokens.length t) else none

/-! ## Tokens of each form -/

/-- The lexer before its next token. -/
def toToken : (fuel : Nat) → Lexer → Lexer
  | 0, l => l
  | fuel + 1, l =>
    let c := l.cursor.skipSpaces.skipComment
    match c.lineBreak? with
    | none => { l with cursor := c }
    | some (_, c) => toToken fuel { l with cursor := c, allowsKey := l.allowsKey || !l.inFlow }

/-- The lexer after a token that may be a key, or start one. -/
def keyLike? (l : Lexer) (scan : Cursor → Option (Token × Cursor)) : Option Lexer := do
  let l ← l.saveKey?
  let (t, c) ← scan l.cursor
  return { l.emit t with cursor := c, allowsKey := false }

/-- The lexer after the start of a flow collection. -/
def openFlow? (l : Lexer) (t : Token) : Option Lexer :=
  l.saveKey?.map fun l => { l.take t 1 with keys := none :: l.keys, allowsKey := true }

/-- The lexer after the end of a flow collection. -/
def closeFlow? (l : Lexer) (t : Token) : Option Lexer :=
  if l.inFlow then
    l.dropKey?.map fun l => { l.take t 1 with keys := l.keys.tail, allowsKey := false }
  else none

/-- The lexer after the sign before an item. -/
def item? (l : Lexer) : Option Lexer := do
  let l ← (← l.openHere? .blockSequence).dropKey?
  return (l.allowing true).take .item 1

/-- The lexer after a comma. -/
def comma? (l : Lexer) : Option Lexer := l.dropKey?.map fun l => (l.allowing true).take .comma 1

/-- The lexer after the sign before a key. -/
def keySign? (l : Lexer) : Option Lexer := do
  let l ← (← l.openHere? .blockMapping).dropKey?
  return (l.allowing !l.inFlow).take .key 1

/-- The lexer after the sign before a value: what stands before it on the line is its key. -/
def valueSign? (l : Lexer) : Option Lexer :=
  match l.key? with
  | some key =>
    let l := ((l.setKey none).insert key.place .key).openAt key.column key.place .blockMapping
    some ((l.allowing false).take .value 1)
  | none => do
    let l ← (← l.openHere? .blockMapping).dropKey?
    return (l.allowing !l.inFlow).take .value 1

/-- The lexer after a directive. -/
def directive? (l : Lexer) : Option Lexer := do
  let l ← (l.closeTo (-1)).dropKey?
  let (t, c) ← Yaml.directive? l.cursor.step
  return { l.emit t with cursor := c, allowsKey := false }

/-- The lexer after the mark of a document's start or end. -/
def mark? (l : Lexer) (t : Token) : Option Lexer :=
  (l.closeTo (-1)).dropKey?.map fun l => (l.allowing false).take t 3

/-- The lexer after a block scalar. -/
def block? (l : Lexer) (isFolded : Bool) : Option Lexer := do
  let l ← l.dropKey?
  let (text, c) ← Yaml.block? isFolded l.indent l.cursor.step
  return { l.emit (.scalar (text.map .char) false) with cursor := c, allowsKey := true }

/-- Whether a plain scalar starts at a cursor. -/
def startsPlain (inFlow : Bool) (c : Cursor) : Bool :=
  (!isGap c.peek && !"-?:,[]\x7b\x7d#&*!|>'\"%@\x60".toList.contains c.peek) ||
    (!isGap (c.peekAt 1) && (c.peek == '-' || (!inFlow && (c.peek == '?' || c.peek == ':'))))

/-- The lexer after a plain scalar. -/
def plain? (l : Lexer) : Option Lexer :=
  if startsPlain l.inFlow l.cursor then
    l.saveKey?.map fun l =>
      let (text, c, newLine) := plain l.inFlow (l.indent + 1) l.cursor.fuel [] false l.cursor
      { l.emit (.scalar (text.map .char) true) with cursor := c, allowsKey := newLine }
  else none

/-- The scalar between single quotes, from the first of them on. -/
def single? (c : Cursor) : Option (Token × Cursor) :=
  (singleQuoted? c.fuel c.step).map fun (text, c) => (.scalar (text.map .char) false, c)

/-- The scalar between double quotes, from the first of them on. -/
def double? (c : Cursor) : Option (Token × Cursor) :=
  (doubleQuoted? c.fuel c.step).map fun (text, c) => (.scalar text false, c)

/-- The lexer after the token at its cursor. -/
def token? (l : Lexer) : Option Lexer :=
  let c := l.cursor
  let standsAlone := l.inFlow || isGap (c.peekAt 1)
  if c.column = 0 ∧ c.peek = '%' then l.directive?
  else if c.column = 0 ∧ c.atMark '-' then l.mark? .documentStart
  else if c.column = 0 ∧ c.atMark '.' then l.mark? .documentEnd
  else match c.peek with
    | '[' => l.openFlow? .flowSequence
    | '\x7b' => l.openFlow? .flowMapping
    | ']' => l.closeFlow? .flowSequenceEnd
    | '\x7d' => l.closeFlow? .flowMappingEnd
    | ',' => l.comma?
    | '-' => if isGap (c.peekAt 1) then l.item? else l.plain?
    | '?' => if standsAlone then l.keySign? else l.plain?
    | ':' => if standsAlone then l.valueSign? else l.plain?
    | '*' => l.keyLike? fun c => (anchorName? c.step).map fun (name, c) => (.alias name, c)
    | '&' => l.keyLike? fun c => (anchorName? c.step).map fun (name, c) => (.anchor name, c)
    | '!' => l.keyLike? tag?
    | '|' => if l.inFlow then l.plain? else l.block? false
    | '>' => if l.inFlow then l.plain? else l.block? true
    | '\'' => l.keyLike? single?
    | '"' => l.keyLike? double?
    | _ => l.plain?

/-- The tokens of what is left of a text, after those read so far. -/
def toEnd? : (fuel : Nat) → Lexer → Option (List Token)
  | 0, _ => none
  | fuel + 1, l => do
    let l ← (toToken l.cursor.fuel l).dropStale?
    let l := l.closeTo l.cursor.column
    if l.cursor.rest.isEmpty then
      let l ← (l.closeTo (-1)).dropKey?
      return l.tokens.reverse
    else toEnd? fuel (← l.token?)

end Lexer

/-- The tokens of a text. -/
def Token.ofText? (s : List Char) : Option (List Token) :=
  Lexer.toEnd? (s.length + 1) { cursor := { rest := s } }

end RecordForge.Yaml
