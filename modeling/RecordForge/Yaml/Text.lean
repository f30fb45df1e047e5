import RecordForge.Schema.Json
import RecordForge.Yaml.Cursor

/-!
# Scalars as text

A scalar may be written plain, between quotes, or as a block of lines. Line ends inside of it are
folded: a single one becomes a space, and of several the first is dropped.

* `singleQuoted?`, `doubleQuoted?`, `plain`, `block?`: the text of a scalar from its first character on,
  and the cursor after it.
-/

namespace RecordForge.Yaml

/-- A text read so far and the cursor after it. -/
abbrev Scanned := List Char × Cursor

/-- What a line end and the empty lines after it count for. -/
def folded (first : Char) (more : List Char) : List Char :=
  if first ≠ '\n' then first :: more else if more.isEmpty then [' '] else more

/-! ## Quoted scalars -/

/-- The line ends that follow within a quoted scalar, with the white space around them dropped. -/
def quotedBreaks? : (fuel : Nat) → Cursor → Option Scanned
  | 0, _ => none
  | fuel + 1, c =>
    if c.atDocumentMark then none
    else
      let c := c.skip isWhite
      match c.lineBreak? with
      | none => some ([], c)
      | some (b, c) => (quotedBreaks? fuel c).map fun (more, c) => (b :: more, c)

/-- The white space that a quoted scalar goes on with; it is dropped before a line end. -/
def quotedSpaces? (c : Cursor) : Option Scanned :=
  let (white, c) := c.span isWhite
  if c.rest.isEmpty then none
  else match c.lineBreak? with
    | none => some (white, c)
    | some (b, c) => (quotedBreaks? c.fuel c).map fun (more, c) => (folded b more, c)

/-- The character that a letter after a backslash stands for. -/
def escape? : Char → Option Char
  | '0' => some '\x00'
  | 'a' => some '\x07'
  | 'b' => some '\x08'
  | 't' => some '\t'
  | '\t' => some '\t'
  | 'n' => some '\n'
  | 'v' => some '\x0b'
  | 'f' => some '\x0c'
  | 'r' => some '\r'
  | 'e' => some '\x1b'
  | ' ' => some ' '
  | '"' => some '"'
  | '\\' => some '\\'
  | '/' => some '/'
  | 'N' => some '\u0085'
  | '_' => some '\u00a0'
  | 'L' => some '\u2028'
  | 'P' => some '\u2029'
  | _ => none

/-- How many hexadecimal digits follow a letter after a backslash. -/
def codeLength? : Char → Option Nat
  | 'x' => some 2
  | 'u' => some 4
  | 'U' => some 8
  | _ => none

/-- The number of some hexadecimal digits. -/
def hexNumber? : List Char → Option Nat
  | [] => some 0
  | ds => ds.foldlM (fun n d => (Json.hexDigit? d).map fun v => n * 16 + v) 0

/-- Pieces read so far and the cursor after them. -/
abbrev ScannedPieces := List Text.Piece × Cursor

/-- The pieces of a text that was read. -/
def Scanned.pieces (s : Scanned) : ScannedPieces := (s.1.map .char, s.2)

/-- What follows a backslash in a double-quoted scalar. A code may be half of a surrogate pair. -/
def escaped? (c : Cursor) : Option ScannedPieces :=
  match escape? c.peek, codeLength? c.peek with
  | some x, _ => some ([.char x], c.step)
  | none, some n => do
    let ds := (c.rest.drop 1).take n
    let code ← hexNumber? ds
    if ds.length = n ∧ code < 0x110000 then some ([.ofCode code], c.forward (n + 1)) else none
  | none, none =>
    match c.lineBreak? with
    | some (_, c) => (quotedBreaks? c.fuel c).map Scanned.pieces
    | none => none

/-- The rest of a double-quoted scalar after its opening quote. -/
def doubleQuoted? : (fuel : Nat) → Cursor → Option ScannedPieces
  | 0, _ => none
  | fuel + 1, c =>
    let next : Option ScannedPieces :=
      if c.rest.isEmpty then none
      else if c.peek = '\\' then escaped? c.step
      else if isWhite c.peek || isBreak c.peek then (quotedSpaces? c).map Scanned.pieces
      else some ([.char c.peek], c.step)
    if c.peek = '"' then some ([], c.step)
    else do
      let (text, c) ← next
      let (more, c) ← doubleQuoted? fuel c
      return (text ++ more, c)

/-- The rest of a single-quoted scalar after its opening quote. -/
def singleQuoted? : (fuel : Nat) → Cursor → Option Scanned
  | 0, _ => none
  | fuel + 1, c =>
    let next : Option Scanned :=
      if c.rest.isEmpty then none
      else if c.peek = '\'' then some (['\''], c.forward 2)
      else if isWhite c.peek || isBreak c.peek then quotedSpaces? c
      else some ([c.peek], c.step)
    if c.peek = '\'' && c.peekAt 1 != '\'' then some ([], c.step)
    else do
      let (text, c) ← next
      let (more, c) ← singleQuoted? fuel c
      return (text ++ more, c)

/-! ## Plain scalars -/

/-- Whether a plain scalar ends before a character, given the one after it. -/
def endsPlain (inFlow : Bool) (x next : Char) : Bool :=
  isGap x || (inFlow && ",?[]\x7b\x7d".toList.contains x) ||
    (x == ':' && (isGap next || (inFlow && ",[]\x7b\x7d".toList.contains next)))

/-- The characters of a plain scalar up to white space or its end. -/
def plainChunk (inFlow : Bool) : List Char → List Char
  | [] => []
  | x :: rest => if endsPlain inFlow x (rest.headD '\x00') then [] else x :: plainChunk inFlow rest

/-- The line ends that follow within a plain scalar, with the spaces around them dropped; nothing at
the mark of a document's start or end. -/
def plainBreaks? : (fuel : Nat) → Cursor → Option Scanned
  | 0, _ => none
  | fuel + 1, c =>
    if c.atDocumentMark then none
    else
      let c := c.skipSpaces
      match c.lineBreak? with
      | none => some ([], c)
      | some (b, c) => (plainBreaks? fuel c).map fun (more, c) => (b :: more, c)

/-- The cursor after the line ends and spaces that stop at the mark of a document's start or end. -/
def skipToMark : (fuel : Nat) → Cursor → Cursor
  | 0, c => c
  | fuel + 1, c =>
    if c.atDocumentMark then c
    else match c.skipSpaces.lineBreak? with
      | none => c.skipSpaces
      | some (_, c) => skipToMark fuel c

/-- What a plain scalar goes on with after a chunk. -/
structure Continuation where
  /-- What stands between two chunks; nothing when the scalar ends. -/
  spaces : List Char
  cursor : Cursor
  /-- Whether a line end was passed. -/
  newLine : Bool

/-- The spaces and line ends after a chunk of a plain scalar. -/
def plainSpaces (c : Cursor) : Continuation :=
  let (white, c) := c.span (· == ' ')
  match c.lineBreak? with
  | none => ⟨white, c, false⟩
  | some (b, c) =>
    match plainBreaks? c.fuel c with
    | some (more, c) => ⟨folded b more, c, true⟩
    | none => ⟨[], skipToMark c.fuel c, true⟩

/-- A plain scalar from its first character on, within an indentation: its text, the cursor after it,
and whether that is on a new line. -/
def plain (inFlow : Bool) (indent : Int) : (fuel : Nat) → (spaces : List Char) → (newLine : Bool) →
    Cursor → List Char × Cursor × Bool
  | 0, _, newLine, c => ([], c, newLine)
  | fuel + 1, spaces, newLine, c =>
    let chunk := if c.peek = '#' then [] else plainChunk inFlow c.rest
    if chunk.isEmpty then ([], c, newLine)
    else
      let next := plainSpaces (c.forward chunk.length)
      let text := spaces ++ chunk
      let ended := next.spaces.isEmpty || next.cursor.peek = '#' ||
        (!inFlow && (next.cursor.column : Int) < indent)
      if ended then (text, next.cursor, next.newLine)
      else
        let (more, c, newLine) := plain inFlow indent fuel next.spaces next.newLine next.cursor
        (text ++ more, c, newLine)

/-! ## Block scalars -/

/-- What is done with the line ends at the end of a block. -/
inductive Chomping where
  /-- The first one is kept. -/
  | clip
  /-- None is kept. -/
  | strip
  /-- All are kept. -/
  | keep
  deriving DecidableEq

/-- The chomping that a sign asks for. -/
def chomping? : Char → Option Chomping
  | '+' => some .keep
  | '-' => some .strip
  | _ => none

/-- The indentation that a digit asks for, zero not being one. -/
def increment? (x : Char) : Option Nat := if '1' ≤ x ∧ x ≤ '9' then some (x.toNat - '0'.toNat) else none

/-- The header of a block: its chomping, its indentation if it gives one, and the cursor after it. -/
def blockHeader? (c : Cursor) : Option (Chomping × Option Nat × Cursor) :=
  let (chomping, increment, c) := match chomping? c.peek, increment? c.peek with
    | some k, _ => match increment? c.step.peek with
      | some n => (k, some n, c.forward 2)
      | none => (k, none, c.step)
    | none, some n => match chomping? c.step.peek with
      | some k => (k, some n, c.forward 2)
      | none => (.clip, some n, c.step)
    | none, none => (.clip, none, c)
  if isSpaceOrEnd c.peek then
    let c := c.skipSpaces.skipComment
    match c.lineBreak? with
    | some (_, c) => some (chomping, increment, c)
    | none => if c.rest.isEmpty then some (chomping, increment, c) else none
  else none

/-- The empty lines at the start of a block, and the greatest column that was seen. -/
def leadingBreaks : (fuel : Nat) → (widest : Nat) → Cursor → List Char × Nat × Cursor
  | 0, widest, c => ([], widest, c)
  | fuel + 1, widest, c =>
    match c.lineBreak? with
    | some (b, c) =>
      let (more, widest, c) := leadingBreaks fuel widest c
      (b :: more, widest, c)
    | none =>
      if c.peek = ' ' then leadingBreaks fuel (max widest c.step.column) c.step else ([], widest, c)

/-- The cursor after at most as many spaces as an indentation has left. -/
def skipIndent (indent : Nat) (c : Cursor) : Cursor :=
  c.forward (min (c.rest.takeWhile (· == ' ')).length (indent - c.column))

/-- The empty lines within a block of an indentation. -/
def blockBreaks (indent : Nat) : (fuel : Nat) → Cursor → Scanned
  | 0, c => ([], c)
  | fuel + 1, c =>
    let c := skipIndent indent c
    match c.lineBreak? with
    | some (b, c) =>
      let (more, c) := blockBreaks indent fuel c
      (b :: more, c)
    | none => ([], c)

/-- The lines of a block after the empty ones before them. -/
def blockLines (isFolded : Bool) (chomping : Chomping) (indent : Nat) :
    (fuel : Nat) → (before : List Char) → Cursor → Scanned
  | 0, before, c => (before, c)
  | fuel + 1, before, c =>
    let startsWhite := isWhite c.peek
    let (line, c) := c.span fun x => !isBreak x
    let (ending, c) := match c.lineBreak? with
      | some (b, c) => ([b], c)
      | none => ([], c)
    let (breaks, c) := blockBreaks indent c.fuel c
    if c.column = indent ∧ ¬c.rest.isEmpty then
      let glue :=
        if isFolded && ending == ['\n'] && !startsWhite && !isWhite c.peek then
          if breaks.isEmpty then [' '] else []
        else ending
      let (more, c) := blockLines isFolded chomping indent fuel (glue ++ breaks) c
      (before ++ line ++ more, c)
    else
      let tail := match chomping with
        | .strip => []
        | .clip => ending
        | .keep => ending ++ breaks
      (before ++ line ++ tail, c)

/-- A block scalar after its sign, within an indentation. -/
def block? (isFolded : Bool) (indent : Int) (c : Cursor) : Option Scanned := do
  let (chomping, increment, c) ← blockHeader? c
  let least := (max 1 (indent + 1)).toNat
  let (breaks, indent, c) := match increment with
    | some n =>
      let indent := least + n - 1
      let (breaks, c) := blockBreaks indent c.fuel c
      (breaks, indent, c)
    | none =>
      let (breaks, widest, c) := leadingBreaks c.fuel 0 c
      (breaks, max least widest, c)
  if c.column = indent ∧ ¬c.rest.isEmpty then
    return blockLines isFolded chomping indent c.fuel breaks c
  else return (if chomping = .keep then breaks else [], c)

end RecordForge.Yaml
