import RecordForge.Ledger
import RecordForge.Number.Notation
import RecordForge.Text.Quoted
import RecordForge.Value

/-!
# Schema documents

A schema file holds a document: a leaf, a list, or a dictionary whose entries keep their order. The
keys of a dictionary are leaves, texts as a rule.

* `Leaf`: what has no parts. `Leaf.ofPieces` makes the leaf of a written text; **`Leaf.ofPieces_injective`**:
  no two texts make the same leaf.
* `Document`: the tree.
* `Document.get?`: the value under a text key.
* `Document.height`: how deep a document is.
* `Document.render`: a document as messages show it.
-/

namespace RecordForge

/-- A part of a document that has no parts itself. -/
inductive Leaf where
  | value (v : Value)
  /-- A text with half of a surrogate pair, in pieces. -/
  | broken (pieces : List Text.Piece)
  /-- A value that no record holds, such as a day or a set, by the text that shows it. -/
  | other (shown : String)
  /-- A list or a dictionary that is one of those around it. -/
  | again (isList : Bool)
  deriving DecidableEq, Inhabited

/-- A leaf that is a text. -/
abbrev Leaf.text (s : String) : Leaf := .value (.text s)

/-- The leaf of the pieces of a text. -/
def Leaf.ofPieces (pieces : List Text.Piece) : Leaf :=
  match Text.chars? pieces with
  | some cs => .text (String.ofList cs)
  | none => .broken pieces

/-- **Pieces are told apart as leaves**: those with half of a pair are not taken for a text, nor for others. -/
theorem Leaf.ofPieces_injective {a b : List Text.Piece} (h : ofPieces a = ofPieces b) : a = b := by
  unfold ofPieces at h
  cases ha : Text.chars? a with
  | some s =>
    cases hb : Text.chars? b with
    | some t =>
      simp only [ha, hb, text, value.injEq, Value.text.injEq, String.ofList_inj] at h
      rw [Text.chars?_eq_some.mp ha, Text.chars?_eq_some.mp hb, h]
    | none =>
      rw [ha, hb] at h
      cases h
  | none =>
    cases hb : Text.chars? b with
    | some t =>
      rw [ha, hb] at h
      cases h
    | none =>
      simp only [ha, hb, broken.injEq] at h
      exact h

/-- A document of a schema file. -/
inductive Document where
  | atom (l : Leaf)
  | list (items : List Document)
  | dict (entries : List (Leaf × Document))
  deriving Inhabited

namespace Document

/-- A document that is a single value. -/
@[match_pattern]
abbrev value (v : Value) : Document := .atom (.value v)

/-- A document that is a text. -/
@[match_pattern]
abbrev text (s : String) : Document := .atom (.value (.text s))

/-- The value of a dictionary under a text key. -/
def get? : Document → String → Option Document
  | .dict entries, key => Ledger.get? entries (.text key)
  | _, _ => none

/-- The text that a document is. -/
def text? : Document → Option String
  | text s => some s
  | _ => none

/-- Whether a document is a text, or would be one but for half of a surrogate pair. -/
def isSpelled : Document → Bool
  | text _ | .atom (.broken _) => true
  | _ => false

/-- Whether a value counts as true: it is neither null nor zero nor empty. -/
def isTrueValue : Value → Bool
  | .null => false
  | .bool b => b
  | .int n => n ≠ 0
  | .float x => !(x == 0.0)
  | .text s => !s.isEmpty

/-- Whether a document counts as true: it is neither null nor zero nor empty. -/
def isTrue : Document → Bool
  | .atom (.value v) => isTrueValue v
  | .atom _ => true
  | .list items => !items.isEmpty
  | .dict entries => !entries.isEmpty

/-- The integer that a document is; a Boolean is one, too. -/
def integer? : Document → Option Int
  | value (.int n) => some n
  | value (.bool b) => some (if b then 1 else 0)
  | _ => none

/-- A record as a document. -/
def ofRecord (r : Record) : Document := .dict (r.map fun (k, v) => (.text k, value v))

mutual

/-- How many documents lie within each other at most. -/
def height : Document → Nat
  | .atom _ => 1
  | .list items => itemsHeight items + 1
  | .dict entries => entriesHeight entries + 1

/-- The greatest height of some documents. -/
def itemsHeight : List Document → Nat
  | [] => 0
  | d :: rest => max (height d) (itemsHeight rest)

/-- The greatest height of the values of some entries. -/
def entriesHeight : List (Leaf × Document) → Nat
  | [] => 0
  | (_, d) :: rest => max (height d) (entriesHeight rest)

end

/-! ## Rendering -/

/-- A value as messages show it. -/
def renderValue : Value → String
  | .null => "None"
  | .bool true => "True"
  | .bool false => "False"
  | .int n => Decimal.integer n
  | .float x => Decimal.shortestText Decimal.doubles x
  | .text s => Text.quoted s

/-- A leaf as messages show it. -/
def renderLeaf : Leaf → String
  | .value v => renderValue v
  | .broken pieces => Text.quotedPieces pieces
  | .other shown => shown
  | .again true => "[...]"
  | .again false => "\x7b...\x7d"

mutual

/-- A document as messages show it. -/
def render : Document → String
  | .atom l => renderLeaf l
  | .list items => "[" ++ ", ".intercalate (renderItems items) ++ "]"
  | .dict entries => "\x7b" ++ ", ".intercalate (renderEntries entries) ++ "\x7d"

/-- The items of a list as messages show them. -/
def renderItems : List Document → List String
  | [] => []
  | d :: rest => render d :: renderItems rest

/-- The entries of a dictionary as messages show them. -/
def renderEntries : List (Leaf × Document) → List String
  | [] => []
  | (k, d) :: rest => (renderLeaf k ++ ": " ++ render d) :: renderEntries rest

end

/-! ## Reading entries -/

/-- Only a text is read as one. -/
theorem text?_eq_some {d : Document} {s : String} : d.text? = some s ↔ d = text s := by
  constructor
  · intro h
    unfold text? at h
    split at h
    · cases h
      rfl
    · cases h
  · rintro rfl
    rfl

/-- A record is read like the entries it was written as. -/
theorem get?_ofRecord (r : Record) (key : String) :
    (ofRecord r).get? key = (Ledger.get? r key).map value := by
  simp only [ofRecord, get?]
  induction r with
  | nil => rfl
  | cons e rest ih =>
    obtain ⟨k, v⟩ := e
    by_cases h : k = key <;> simp_all [Ledger.get?]

end Document

end RecordForge
