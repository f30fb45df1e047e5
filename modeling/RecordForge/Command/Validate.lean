import RecordForge.Calendar.Date
import RecordForge.Command.Grammar
import RecordForge.Failure
import RecordForge.Number.Numeral
import RecordForge.Schema.Descriptor

/-!
# From a command to a strategy

A command of the right form may still say something that no field can follow: a number out of range,
an empty span, a symbol that the enum does not have.

* `Complaint`: why a command is refused; `Complaint.message` is its text.
* `Refusal`: a complaint, or a defect that ends the dialog.
* `strategyOf`, `readStrategy`: the strategy of the parts of a command, and of a command.
-/

namespace RecordForge.Command

open Calendar

/-! ## Complaints -/

/-- Why a command is refused. -/
inductive Complaint where
  /-- It is not of the form of a command. -/
  | unreadable
  /-- The operand of a clause is out of range. -/
  | operand (keyword : String)
  /-- The upper bound is not above the lower one. -/
  | emptySpan (lower upper : String)
  /-- The scale is zero. -/
  | zeroScale
  /-- A span of days lacks a bound. -/
  | missingDates
  /-- A bound is no day. -/
  | notDates
  /-- The span has no day. -/
  | shortSpan
  /-- A set has items that are no symbols of the enum. -/
  | unknownSymbols (items : List String)
  deriving DecidableEq, Repr

/-- The hint that most complaints end with. -/
def hint : String := "Enter 'help' for more info."

/-- The text of a complaint. -/
def Complaint.message : Complaint → String
  | unreadable => s!"Could not parse input. {hint}"
  | operand keyword => s!"Could not parse parameter '{keyword}'. {hint}"
  | emptySpan lower upper => s!"Invalid input! Illegal range from '{lower}' to '{upper}'. {hint}"
  | zeroScale => s!"Invalid input! Scale can't be zero. {hint}"
  | missingDates => s!"Strategy 'date' requires both 'from' and 'to' as YYYYMMDD. {hint}"
  | notDates => s!"Could not parse date span. Dates are entered as YYYYMMDD. {hint}"
  | shortSpan => "Date span must be at least 1 day."
  | unknownSymbols items =>
    let listed := ", ".intercalate (items.map fun s => s!"'{s}'")
    s!"Parameter 'in' contains invalid symbols ({listed}). {hint}"

/-- Why there is no strategy. -/
inductive Refusal where
  /-- The command is refused. -/
  | complaint (c : Complaint)
  /-- The command cannot even be judged. -/
  | defect (d : Defect)

/-! ## Operands -/

/-- The defect of a text that is no integer. -/
def defectOf (text : List Char) : Numeral.Fault → Defect
  | .malformed => .malformedNumber (String.ofList text)
  | .tooLong n => .longNumber n

/-- The integer that a text spells, if it lies between two bounds. -/
def within? (low high : Int) (text : List Char) : Except Defect (Option Int) :=
  match Numeral.integer? text with
  | .error fault => .error (defectOf text fault)
  | .ok n => .ok (if low ≤ n ∧ n ≤ high then some n else none)

/-- The integer operand of a clause, between two bounds. -/
def integerOperand (keyword : String) (low high : Int) (text : List Char) : Except Refusal Int :=
  match within? low high text with
  | .error d => .error (.defect d)
  | .ok none => .error (.complaint (.operand keyword))
  | .ok (some n) => .ok n

/-- The integer operand of a clause, or what counts when the clause is missing. -/
def integerOr (default : Int) (keyword : String) (low high : Int) :
    Option (List Char) → Except Refusal Int
  | none => .ok default
  | some text => integerOperand keyword low high text

/-- The finite double that a text spells. -/
def finite? (text : List Char) : Except Defect (Option Float) :=
  match Numeral.real? text with
  | none => .error (.malformedNumber (String.ofList text))
  | some x => .ok (if x.isFinite then some x else none)

/-- The decimal operand of a clause, or what counts when the clause is missing. -/
def decimalOr (default : Float) (keyword : String) : Option (List Char) → Except Refusal Float
  | none => .ok default
  | some text =>
    match finite? text with
    | .error d => .error (.defect d)
    | .ok none => .error (.complaint (.operand keyword))
    | .ok (some x) => .ok x

/-- The integer items of a set, between two bounds. -/
def integerItems (low high : Int) : List (List Char) → Except Refusal (List Value)
  | [] => .ok []
  | text :: rest => do
    let n ← integerOperand "in" low high text
    let more ← integerItems low high rest
    return .int n :: more

/-! ## Strategies -/

/-- Whether a span from one bound to another has a day; `date` spans only. -/
def checkDates (p : Parts) (lower upper : Int) : Except Refusal Unit :=
  if (p.operand? .lower).isNone || (p.operand? .upper).isNone then
    .error (.complaint .missingDates)
  else match readStamp lower with
    | .outOfReach => .error (.defect .dateOutOfReach)
    | a =>
      match a, readStamp upper with
      | _, .outOfReach => .error (.defect .dateOutOfReach)
      | .day a, .day b => if a.daysTo b ≤ 0 then .error (.complaint .shortSpan) else .ok ()
      | _, _ => .error (.complaint .notDates)

/-- The least and the greatest value of an integer kind. -/
def range (kind : Kind) : Int × Int :=
  if kind = .int then (Word.minInt, Word.maxInt) else (Word.minLong, Word.maxLong)

/-- The strategy of a command for an integer field. -/
def integerStrategy (kind : Kind) (p : Parts) : Except Refusal Strategy := do
  let mode := p.mode.getD .rand
  let (least, greatest) := range kind
  match p.operand? .items with
  | some text =>
    let items ← integerItems least greatest (Text.items text)
    return { mode, items := some items }
  | none =>
    let lower ← integerOr 0 "from" Word.minLong Word.maxLong (p.operand? .lower)
    let upper ← integerOr greatest "to" Word.minLong Word.maxLong (p.operand? .upper)
    let scale ← integerOr 1 "scale" Word.minInt Word.maxInt (p.operand? .scale)
    if upper ≤ lower then
      throw (.complaint (.emptySpan (Decimal.integer lower) (Decimal.integer upper)))
    if scale = 0 then throw (.complaint .zeroScale)
    if mode = .date then checkDates p lower upper
    return { mode, bounds := .integers lower upper, scale }

/-- The strategy of a command for a floating-point field. -/
def decimalStrategy (kind : Kind) (p : Parts) : Except Refusal Strategy := do
  let mode := p.mode.getD .rand
  let greatest := if kind = .float then greatestSingle else greatestDouble
  let lower ← decimalOr 0.0 "from" (p.operand? .lower)
  let upper ← decimalOr greatest "to" (p.operand? .upper)
  let precision ← integerOr 2 "prec" 0 Word.maxInt (p.operand? .precision)
  if upper ≤ lower then
    throw (.complaint (.emptySpan (Decimal.fixed 6 lower) (Decimal.fixed 6 upper)))
  return { mode, bounds := .decimals lower upper, precision }

/-- The items of a set as texts. -/
def textItems (text : List Char) : List String := (Text.items text).map String.ofList

/-- The strategy of a command for a string field. -/
def stringStrategy (p : Parts) : Except Refusal Strategy := do
  let mode := p.mode.getD .rand
  match p.operand? .items with
  | some text => return { mode, items := some ((textItems text).map .text) }
  | none =>
    let lower ← integerOr 0 "from" 0 Word.maxInt (p.operand? .lower)
    let upper ← integerOr defaultStringUpper "to" 0 Word.maxInt (p.operand? .upper)
    if upper ≤ lower then
      throw (.complaint (.emptySpan (Decimal.integer lower) (Decimal.integer upper)))
    return { mode, bounds := .integers lower upper }

/-- The strategy of a command for an enum field with some symbols. -/
def enumStrategy (symbols : List String) (p : Parts) : Except Refusal Strategy := do
  let mode := p.mode.getD .rand
  match p.operand? .items with
  | none => return { mode }
  | some text =>
    let items := textItems text
    let unknown := (firsts items).filter fun s => !symbols.contains s
    if unknown.isEmpty then return { mode, items := some (items.map .text) }
    else throw (.complaint (.unknownSymbols unknown))

/-- The strategy of the parts of a command for a field. -/
def strategyOf (d : Descriptor) (p : Parts) : Except Refusal Strategy :=
  if d.kind.isInteger then integerStrategy d.kind p
  else if d.kind.isDecimal then decimalStrategy d.kind p
  else if d.kind = .string then stringStrategy p
  else enumStrategy d.symbols p

/-- The strategy of a command for a field whose commands have a grammar. -/
def readStrategy (g : Grammar) (d : Descriptor) (line : String) : Except Refusal Strategy :=
  match g.read? line.toList with
  | none => .error (.complaint .unreadable)
  | some p => strategyOf d p

end RecordForge.Command
