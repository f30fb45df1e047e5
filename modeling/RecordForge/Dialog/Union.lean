import RecordForge.Dialog.Strategy
import RecordForge.Generator.FromStrategy

/-!
# Asking for the generator of a field

A field of a union is generated as one of its members. A union with null is asked for the probability
of null first, one with several members other than null for the member; the member is then asked about
like any field.

* `askProbability`, `askMember`: the two questions about a union.
* `configure`: the generator of a field and the kind that it generates.
* `Configuration`, `configureFields`: the generators and kinds of all fields, as far as the dialog
  came.
-/

namespace RecordForge.Dialog

/-! ## Unions -/

/-- What is made of an answer to the question for the probability of null. -/
def judgeProbability (line : String) : Verdict Float :=
  match Numeral.real? line.toList with
  | none => .reject "Could not parse probability. Enter a real number between 0.0 and 1.0."
  | some p =>
    if 0.0 ≤ p ∧ p ≤ 1.0 then .accept p
    else .reject "Probability must be in span 0.0 and 1.0 (inclusive)."

/-- Ask for the probability of null. -/
def askProbability (name : String) : Dialog Float :=
  ask s!"Enter probability (0.0 - 1.0) that union '{name}' is null: " judgeProbability

/-- The names of some types, as a list. -/
def listed (choices : List Descriptor) : String :=
  "[" ++ ", ".intercalate (choices.map fun m => m.kind.name) ++ "]"

/-- Whether an answer names a type, whatever the case of its letters. -/
def names (line : String) (m : Descriptor) : Bool :=
  m.kind.name.toList == line.toList.map Numeral.lowerAscii

/-- What is made of an answer to the question for a member. -/
def judgeMember (choices : List Descriptor) (line : String) : Verdict Descriptor :=
  if line = "help" then .explain s!"Enter one of the following: {listed choices}."
  else match choices.find? (names line) with
    | some m => .accept m
    | none => .reject s!"Unknown type '{line}'. Enter one of the following: {listed choices}."

/-- Ask for one of several members. -/
def askMember (name : String) (choices : List Descriptor) : Dialog Descriptor :=
  ask s!"Select type to generate for union '{name}': " (judgeMember choices)

/-- The member that a union is generated as. -/
def selectMember (name : String) : List Descriptor → Dialog Descriptor
  | [] => throw (.emptyUnion name)
  | [m] => pure m
  | choices => askMember name choices

/-- A generator that gives null with a probability, if there is any. -/
def withNull (p : Float) (g : Generator) : Generator := if p > 0.0 then .nullable p g else g

/-! ## Fields -/

/-- The generator of a field that is no union. -/
def configurePlain (name : String) (d : Descriptor) : Dialog (Generator × Kind) := do
  let strategy ← askStrategy name d
  match strategy.generator d with
  | .ok g => return (g, d.kind)
  | .error e => throw e

mutual

/-- The generator of a field, and the kind that it generates. -/
def configure (name : String) : Descriptor → Dialog (Generator × Kind)
  | ⟨n, .union, symbols, members, nullable⟩ => do
    let p ← if nullable then askProbability name else pure 0.0
    let selected ← selectMember name (Descriptor.choices ⟨n, .union, symbols, members, nullable⟩)
    let (g, kind) ← configureMember name selected members
    return (withNull p g, kind)
  | d => configurePlain name d

/-- The generator of a field that is generated as one of some members. -/
def configureMember (name : String) (selected : Descriptor) :
    List Descriptor → Dialog (Generator × Kind)
  | [] => throw (.emptyUnion name)
  | m :: rest => if m = selected then configure name m else configureMember name selected rest

end

/-- What the dialog has settled: the generators of fields, and the kinds that they generate. -/
structure Configuration where
  pool : Ledger String Generator := []
  kinds : Ledger String Kind := []

/-- The configuration with a field settled. -/
def Configuration.settle (c : Configuration) (name : String) (g : Generator) (kind : Kind) :
    Configuration :=
  ⟨Ledger.set c.pool name g, Ledger.set c.kinds name kind⟩

/-- Settle every field in order, up to the first failure. -/
def configureFields (c : Configuration) :
    List Descriptor → Session → Option Failure × Configuration × Session
  | [], s => (none, c, s)
  | d :: rest, s =>
    match (configure d.name d).run s with
    | (.ok (g, kind), s) => configureFields (c.settle d.name g kind) rest s
    | (.error e, s) => (some e, c, s)

end RecordForge.Dialog
