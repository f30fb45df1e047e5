import RecordForge.Number.Numeral
import RecordForge.Schema.Document
import RecordForge.Text.Surrogate
import RecordForge.Text.Word

/-!
# Reading JSON documents

The texts of JSON, with `NaN`, `Infinity` and `-Infinity` as numbers too. Of two entries of an object
with one key the first gives the place and the last gives the value. An integer with more than
`Numeral.digitLimit` digits is refused.

* `read?`: the document that a text spells.

A document takes at most two steps of the reader for each of its characters, so twice the length of
the text bounds the depth of its recursion.
-/

namespace RecordForge.Json

open Text

/-- The characters that may stand between the parts of a document. -/
def isSpace (c : Char) : Bool := c == ' ' || c == '\t' || c == '\n' || c == '\r'

/-- What follows the space that a text starts with. -/
def skipSpace (s : List Char) : List Char := s.dropWhile isSpace

/-! ## Texts -/

/-- The value of a hexadecimal digit. -/
def hexDigit? (c : Char) : Option Nat :=
  if '0' ≤ c ∧ c ≤ '9' then some (c.toNat - '0'.toNat)
  else if 'a' ≤ c ∧ c ≤ 'f' then some (c.toNat - 'a'.toNat + 10)
  else if 'A' ≤ c ∧ c ≤ 'F' then some (c.toNat - 'A'.toNat + 10)
  else none

/-- The number of four hexadecimal digits, and what follows them. -/
def hex4? : List Char → Option (Nat × List Char)
  | a :: b :: c :: d :: s => do
    let a ← hexDigit? a
    let b ← hexDigit? b
    let c ← hexDigit? c
    let d ← hexDigit? d
    some (((a * 16 + b) * 16 + c) * 16 + d, s)
  | _ => none

/-- The piece of a code after `\u`, and what follows it; two codes may make a surrogate pair. -/
def unicode? (s : List Char) : Option (Piece × List Char) := do
  let (high, s) ← hex4? s
  if 0xD800 ≤ high ∧ high < 0xDC00 then
    match s with
    | '\\' :: 'u' :: t =>
      match hex4? t with
      | some (low, u) =>
        if 0xDC00 ≤ low ∧ low < 0xE000 then
          some (.ofCode (0x10000 + (high - 0xD800) * 0x400 + (low - 0xDC00)), u)
        else some (.ofCode high, s)
      | none => none
    | _ => some (.ofCode high, s)
  else some (.ofCode high, s)

/-- The character after a backslash other than `u`. -/
def escape? : Char → Option Char
  | '"' => some '"'
  | '\\' => some '\\'
  | '/' => some '/'
  | 'b' => some '\x08'
  | 'f' => some '\x0c'
  | 'n' => some '\n'
  | 'r' => some '\r'
  | 't' => some '\t'
  | _ => none

/-- The rest of a text after its opening quote, and what follows the closing one. -/
def string? : (fuel : Nat) → (read : List Piece) → List Char → Option (Leaf × List Char)
  | 0, _, _ => none
  | _, _, [] => none
  | _, read, '"' :: s => some (.ofPieces read.reverse, s)
  | fuel + 1, read, '\\' :: 'u' :: s =>
    (unicode? s).bind fun (p, s) => string? fuel (p :: read) s
  | fuel + 1, read, '\\' :: e :: s => (escape? e).bind fun c => string? fuel (.char c :: read) s
  | _, _, ['\\'] => none
  | fuel + 1, read, c :: s => if c.toNat < 0x20 then none else string? fuel (.char c :: read) s

/-! ## Numbers -/

/-- Whether a character is one of the ten ASCII digits. -/
def isAsciiDigit (c : Char) : Bool := '0' ≤ c && c ≤ '9'

/-- The integer part of a number: a single zero, or digits that do not start with one. -/
def whole? : List Char → Option (List Char × List Char)
  | '0' :: s => some (['0'], s)
  | c :: s =>
    if isAsciiDigit c then some (c :: s.takeWhile isAsciiDigit, s.dropWhile isAsciiDigit) else none
  | [] => none

/-- The digits after a point, if there are any. -/
def fraction (s : List Char) : List Char × List Char :=
  match s with
  | '.' :: c :: t =>
    if isAsciiDigit c then ((c :: t).takeWhile isAsciiDigit, (c :: t).dropWhile isAsciiDigit)
    else ([], s)
  | _ => ([], s)

/-- The exponent, if there is one. -/
def exponent (s : List Char) : Option Int × List Char :=
  match s with
  | e :: t =>
    if e = 'e' ∨ e = 'E' then
      let (negative, u) := Numeral.sign t
      let ds := u.takeWhile isAsciiDigit
      if ds.isEmpty then (none, s)
      else
        let n : Int := numberOf ds
        (some (if negative then -n else n), u.dropWhile isAsciiDigit)
    else (none, s)
  | [] => (none, s)

/-- The number that a text starts with, and what follows it. -/
def number? (s : List Char) : Option (Value × List Char) := do
  let (negative, s) := match s with
    | '-' :: t => (true, t)
    | t => (false, t)
  let (whole, s) ← whole? s
  let (places, s) := fraction s
  let (power, s) := exponent s
  if places.isEmpty && power.isNone then
    if Numeral.digitLimit < whole.length then none
    else
      let n : Int := numberOf whole
      some (.int (if negative then -n else n), s)
  else
    let e := power.getD 0 - places.length
    some (.float (Numeral.nearest negative (numberOf (whole ++ places)) e), s)

/-- The words that are values. -/
def words : List (String × Value) :=
  [("null", .null), ("true", .bool true), ("false", .bool false), ("NaN", .float Binary.nan),
   ("Infinity", .float (Binary.infinity false)), ("-Infinity", .float (Binary.infinity true))]

/-- The word or number that a text starts with, and what follows it. -/
def bare? (s : List Char) : Option (Value × List Char) :=
  match words.findSome? fun (w, v) => (after? w.toList s).map fun t => (v, t) with
  | some r => some r
  | none => number? s

/-- The leaf that a text starts with, and what follows it. -/
def atom? (fuel : Nat) (s : List Char) : Option (Leaf × List Char) :=
  match s with
  | '"' :: t => string? fuel [] t
  | _ => (bare? s).map fun (v, u) => (.value v, u)

/-! ## Documents -/

mutual

/-- The document that a text starts with, and what follows it. -/
def document? : (fuel : Nat) → List Char → Option (Document × List Char)
  | 0, _ => none
  | fuel + 1, s =>
    match skipSpace s with
    | '[' :: t =>
      match skipSpace t with
      | ']' :: u => some (.list [], u)
      | u => items? fuel [] u
    | '\x7b' :: t =>
      match skipSpace t with
      | '\x7d' :: u => some (.dict [], u)
      | u => entries? fuel [] u
    | t => (atom? fuel t).map fun (l, u) => (.atom l, u)

/-- The rest of a list from one of its items on. -/
def items? : (fuel : Nat) → (read : List Document) → List Char → Option (Document × List Char)
  | 0, _, _ => none
  | fuel + 1, read, s =>
    (document? fuel s).bind fun (d, t) =>
      match skipSpace t with
      | ',' :: u => items? fuel (d :: read) u
      | ']' :: u => some (.list (d :: read).reverse, u)
      | _ => none

/-- The rest of an object from one of its keys on. -/
def entries? : (fuel : Nat) → (read : List (Leaf × Document)) → List Char →
    Option (Document × List Char)
  | 0, _, _ => none
  | fuel + 1, read, s =>
    match skipSpace s with
    | '"' :: t =>
      (string? fuel [] t).bind fun (key, t) =>
        match skipSpace t with
        | ':' :: u =>
          (document? fuel u).bind fun (d, v) =>
            let read := Ledger.set read key d
            match skipSpace v with
            | ',' :: w => entries? fuel read w
            | '\x7d' :: w => some (.dict read, w)
            | _ => none
        | _ => none
    | _ => none

end

/-- How many lists and objects may lie within each other. -/
def depthLimit : Nat := 990

/-- The greatest number of lists and objects that are open at once, given whether a string is, how many
are open and how many have been. -/
def nesting (inString : Bool) (depth deepest : Nat) : List Char → Nat
  | [] => deepest
  | '\\' :: _ :: rest => nesting inString depth deepest rest
  | c :: rest =>
    if c = '"' then nesting (!inString) depth deepest rest
    else if !inString && (c == '[' || c == '\x7b') then
      nesting inString (depth + 1) (max (depth + 1) deepest) rest
    else if !inString && (c == ']' || c == '\x7d') then nesting inString (depth - 1) deepest rest
    else nesting inString depth deepest rest

/-- Whether more lists and objects lie within each other than may. -/
def isTooDeep (s : List Char) : Bool := depthLimit < nesting false 0 0 s

/-- The document that a text spells. -/
def read? (s : String) : Option Document :=
  let cs := s.toList
  match document? (2 * cs.length + 2) cs with
  | some (d, rest) => if (skipSpace rest).isEmpty then some d else none
  | none => none

end RecordForge.Json
