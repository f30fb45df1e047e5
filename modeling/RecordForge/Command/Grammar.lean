import RecordForge.Command.Strategy
import RecordForge.Text.Digit
import RecordForge.Text.Word

/-!
# The grammar of strategy commands

A command is an optional mode and then optional clauses in a fixed order. A clause is a keyword and
an operand, with blanks allowed before and after the keyword. Each kind of field has a grammar of its
own, which is a table.

* `Operand.read?`, `Clause.read?`: the longest operand or clause that a text starts with.
* `Grammar`: the modes and the clauses of a kind.
* `Grammar.read?`: the parts of a command.

A mode word is only a mode when a command follows it. `incra` is no command with the mode `incr`, but
for a string field it is the clause `in` with the item `cra`.
-/

namespace RecordForge.Command

open Text

/-! ## Operands -/

/-- What may follow a keyword. -/
inductive Operand where
  /-- Decimal digits. -/
  | natural
  /-- Decimal digits after an optional minus sign. -/
  | integer
  /-- An integer with an optional point and optional digits after it. -/
  | decimal
  /-- Integers with commas between them. -/
  | integers
  /-- Any items with commas between them, to the end of the text. -/
  | texts
  deriving DecidableEq, Repr

/-- The digits that a text starts with, if there are any, and what follows them. -/
def natural? (s : List Char) : Option (List Char × List Char) :=
  match leadingDigits s with
  | [] => none
  | ds => some (ds, afterDigits s)

/-- The integer that a text starts with, and what follows it. -/
def integer? : List Char → Option (List Char × List Char)
  | '-' :: s => (natural? s).map fun (ds, rest) => ('-' :: ds, rest)
  | s => natural? s

/-- The decimal number that a text starts with, and what follows it. -/
def decimal? (s : List Char) : Option (List Char × List Char) :=
  (integer? s).map fun (whole, rest) =>
    match rest with
    | '.' :: t => (whole ++ '.' :: leadingDigits t, afterDigits t)
    | t => (whole, t)

/-- The further integers of a list, each after a comma and blanks. -/
def moreIntegers (fuel : Nat) (s : List Char) : List Char × List Char :=
  match fuel, s with
  | fuel + 1, ',' :: t =>
    match integer? (trimLeft t) with
    | some (n, rest) =>
      let (more, rest) := moreIntegers fuel rest
      (',' :: t.takeWhile isBlank ++ n ++ more, rest)
    | none => ([], s)
  | _, _ => ([], s)

/-- The list of integers that a text starts with, and what follows it. -/
def integers? (s : List Char) : Option (List Char × List Char) :=
  (integer? s).map fun (n, rest) =>
    let (more, rest) := moreIntegers rest.length rest
    (n ++ more, rest)

/-- A whole text as a list of items: none of the pieces between its commas may be empty. Blanks before
the first item do not count, but an item that is blank keeps the last of them. -/
def texts? (s : List Char) : Option (List Char) :=
  let t := trimLeft s
  let t := match t with
    | [] => ((s.takeWhile isBlank).getLast?.map fun c => [c]).getD []
    | ',' :: _ => ((s.takeWhile isBlank).getLast?.map fun c => c :: t).getD t
    | _ => t
  if (pieces t).all fun p => !p.isEmpty then some t else none

/-- The operand after a keyword and what follows it. -/
def Operand.read? (o : Operand) (s : List Char) : Option (List Char × List Char) :=
  match o with
  | natural => natural? (trimLeft s)
  | integer => integer? (trimLeft s)
  | decimal => decimal? (trimLeft s)
  | integers => integers? (trimLeft s)
  | texts => (texts? s).map fun t => (t, [])

/-! ## Clauses -/

/-- What a clause is about. -/
inductive Part where
  | lower
  | upper
  | scale
  | precision
  | items
  deriving DecidableEq, Repr

/-- A clause of a grammar. -/
structure Clause where
  part : Part
  keyword : String
  operand : Operand
  deriving DecidableEq, Repr

/-- The operand of a clause that a text starts with, and what follows it. -/
def Clause.read? (c : Clause) (s : List Char) : Option (List Char × List Char) :=
  (after? c.keyword.toList (trimLeft s)).bind c.operand.read?

/-- Whether a text counts as ended. One last line feed is let pass. -/
def isEnd (s : List Char) : Bool := s.isEmpty || s == ['\n']

/-- The operands of the clauses that a text consists of, in order. -/
def readClauses : List Clause → List Char → Option (List (Part × List Char))
  | [], s => if isEnd s then some [] else none
  | c :: cs, s =>
    match c.read? s with
    | some (x, rest) => (readClauses cs rest).map ((c.part, x) :: ·)
    | none => readClauses cs s

/-! ## Grammars -/

/-- The commands of a kind of field. -/
structure Grammar where
  modes : List Mode
  clauses : List Clause

/-- The parts of a command. -/
structure Parts where
  mode : Option Mode
  operands : List (Part × List Char)
  deriving DecidableEq, Repr

/-- The operand of a part, if the command has it. -/
def Parts.operand? (p : Parts) (part : Part) : Option (List Char) := p.operands.lookup part

/-- The mode word that a text starts with, and what follows it. -/
def Grammar.mode? (g : Grammar) (s : List Char) : Option (Mode × List Char) :=
  g.modes.findSome? fun m => (after? m.word.toList s).map fun rest => (m, rest)

/-- The parts of the command that a text is. A reading with a mode goes before one without. -/
def Grammar.read? (g : Grammar) (s : List Char) : Option Parts :=
  let withMode := (g.mode? s).bind fun (m, rest) =>
    (readClauses g.clauses rest).map fun ops => Parts.mk (some m) ops
  match withMode with
  | some p => some p
  | none => (readClauses g.clauses s).map fun ops => ⟨none, ops⟩

/-- Commands of integer fields. -/
def integerGrammar : Grammar where
  modes := [.rand, .incr, .date]
  clauses :=
    [⟨.lower, "from", .integer⟩, ⟨.upper, "to", .integer⟩, ⟨.scale, "scale", .natural⟩,
      ⟨.items, "in", .integers⟩]

/-- Commands of floating-point fields. -/
def decimalGrammar : Grammar where
  modes := [.rand, .gauss]
  clauses :=
    [⟨.lower, "from", .decimal⟩, ⟨.upper, "to", .decimal⟩, ⟨.precision, "prec", .natural⟩]

/-- Commands of string fields. -/
def stringGrammar : Grammar where
  modes := [.rand, .incr]
  clauses := [⟨.lower, "from", .natural⟩, ⟨.upper, "to", .natural⟩, ⟨.items, "in", .texts⟩]

/-- Commands of enum fields. -/
def enumGrammar : Grammar where
  modes := [.rand, .incr]
  clauses := [⟨.items, "in", .texts⟩]

/-- The grammar of a kind; kinds that are not generated have none. -/
def grammar? : Kind → Option Grammar
  | .int | .long => some integerGrammar
  | .float | .double => some decimalGrammar
  | .string => some stringGrammar
  | .enum => some enumGrammar
  | _ => none

end RecordForge.Command
