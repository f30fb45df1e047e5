import RecordForge.Yaml.Lexer
import RecordForge.Yaml.Spot

/-!
# Parsed YAML documents

* `read`: the document that a text spells.
* `mergedEntries`: the entries of a mapping with those that it takes over from others.
* `build`: the document of a node.

A text must hold printable characters alone and at most one document. A mapping takes over the entries
of others that stand under the merge key, and its own entries go before them. Of two entries with one
key the first gives the key and its place and the last gives the value. A key must be a scalar.

An alias within its own node has no end. It is followed once for each collection around it; where it
comes back to one of these there is a leaf. The list of fields and the record around it do not count,
so that each field is as it would be alone.
-/

namespace RecordForge.Yaml

/-! ## Entries -/

/-- What a key counts as when it is compared: a Boolean or a whole number as an integer. -/
def canonical (l : Leaf) : Leaf :=
  match l with
  | .value (.bool b) => .value (.int (if b then 1 else 0))
  | .value (.float x) =>
    match Binary.decode? x with
    | none => l
    | some d =>
      let n := Binary.truncate d
      if x == Float.ofInt n then .value (.int n) else l
  | l => l

/-- The entries after writing one. A key that is there stays as it is. -/
def put (key : Leaf) (d : Document) : List (Leaf × Document) → List (Leaf × Document)
  | [] => [(key, d)]
  | (k, e) :: rest =>
    if canonical k = canonical key then (k, d) :: rest else (k, e) :: put key d rest

/-- Whether two leaves are integers of which the first is not greater. -/
def inOrder : Leaf → Leaf → Bool
  | .value (.int a), .value (.int b) => a ≤ b
  | _, _ => true

/-- A set of keys as messages show it, with integers in order. -/
def shownSet (keys : List Leaf) : String :=
  let shown := (keys.mergeSort inOrder).map Document.renderLeaf
  if shown.isEmpty then "set()" else "\x7b" ++ ", ".intercalate shown ++ "\x7d"

/-- The leaf of a key. -/
def keyLeaf (book : Book) (fuel : Nat) (s : Spot) : Parsed Leaf :=
  match NodeType.of? (book.resolve s).node, book.text? fuel s with
  | some (.scalar .equals), some text => .ok (.ofPieces text)
  | some (.scalar type), some text => type.leafOf text
  | _, _ => .error .malformed

/-- Entries that a mapping takes over, from the last list of them to the first. -/
def lastFirst {α : Type} (lists : List (List α)) : List α := lists.reverse.flatten

/-- The entries of a mapping with those that it takes over before its own. A mapping that takes over
from itself, through others or not, takes its own entries. -/
def mergedEntries (book : Book) :
    (fuel : Nat) → (within : List (List Nat)) → Spot → Parsed (List (Spot × Spot))
  | 0, _, _ => .error .malformed
  | fuel + 1, within, s =>
    let s := book.resolve s
    let own := s.entries.filter fun (k, _) => !book.isScalar .merge k
    let from? (t : Spot) : Parsed (List (Spot × Spot)) :=
      if (book.resolve t).isMapping then mergedEntries book fuel (s.place :: within) t
      else .error .malformed
    if within.contains s.place then .ok own
    else do
      let taken ← (s.entries.filter fun (k, _) => book.isScalar .merge k).mapM fun (_, v) =>
        let v := book.resolve v
        if v.isSequence then (v.items.mapM from?).map lastFirst else from? v
      return taken.flatten ++ own

/-! ## Documents -/

/-- The documents of anchors that have no alias within its own node. -/
abbrev Finished := Ledger String Document

/-- What a reader made of some nodes. -/
structure Built (α : Type) where
  result : α
  /-- Whether no alias came back to a node around it. -/
  isClosed : Bool
  finished : Finished

/-- A reader of a node. -/
abbrev Builder := Spot → Finished → Parsed (Built Document)

/-- What a reader makes of some nodes. -/
def buildItems (build : Builder) : List Spot → Finished → Parsed (Built (List Document))
  | [], finished => .ok ⟨[], true, finished⟩
  | s :: rest, finished => do
    let d ← build s finished
    let ds ← buildItems build rest d.finished
    return ⟨d.result :: ds.result, d.isClosed && ds.isClosed, ds.finished⟩

/-- What readers of keys and values make of some entries. -/
def buildEntries (key : Spot → Parsed Leaf) (build : Builder) :
    List (Spot × Spot) → List (Leaf × Document) → Finished → Parsed (Built (List (Leaf × Document)))
  | [], entries, finished => .ok ⟨entries, true, finished⟩
  | (k, v) :: rest, entries, finished => do
    let key' ← key k
    let d ← build v finished
    let more ← buildEntries key build rest (put key' d.result entries) d.finished
    return { more with isClosed := d.isClosed && more.isClosed }

/-- The pair that a mapping of one entry stands for. -/
def buildPair (book : Book) (build : Builder) (s : Spot) (finished : Finished) :
    Parsed (Built Document) := do
  match (book.resolve s).entries with
  | [(k, v)] =>
    let k ← build k finished
    let v ← build v k.finished
    let shown := "(" ++ k.result.render ++ ", " ++ v.result.render ++ ")"
    return ⟨.atom (.other shown), k.isClosed && v.isClosed, v.finished⟩
  | _ => throw .malformed

/-- The document of a spot that stands for itself. -/
def buildAs (book : Book) (fuel : Nat) (build : Builder) (s : Spot) (finished : Finished) :
    Parsed (Built Document) := do
  match NodeType.of? s.node with
  | some (.scalar type) =>
    let text ← Parsed.ofOption (book.text? fuel s)
    return ⟨.atom (← type.leafOf text), true, finished⟩
  | some .list =>
    if !s.isSequence then throw .malformed
    let ds ← buildItems build s.items finished
    return { ds with result := .list ds.result }
  | some .pairs =>
    if !s.isSequence then throw .malformed
    let ds ← buildItems (buildPair book build) s.items finished
    return { ds with result := .list ds.result }
  | some .dict =>
    if !s.isMapping then throw .malformed
    let entries ← mergedEntries book fuel [] s
    let es ← buildEntries (keyLeaf book fuel) build entries [] finished
    return { es with result := .dict es.result }
  | some .set =>
    if !s.isMapping then throw .malformed
    let entries ← mergedEntries book fuel [] s
    let es ← buildEntries (keyLeaf book fuel) build entries [] finished
    return { es with result := .atom (.other (shownSet (es.result.map Prod.fst))) }
  | none => throw .malformed

/-- What a node adds to the finished anchors. -/
def finish (s : Spot) (b : Built Document) : Built Document :=
  let anchor := match s.node with
    | .scalar p _ _ | .sequence p _ | .mapping p _ => p.anchor
    | .alias _ => none
  match anchor with
  | some name => if b.isClosed then { b with finished := Ledger.set b.finished name b.result } else b
  | none => b

/-- The document that an alias has from its anchor, if that is finished. -/
def finished? (finished : Finished) : Node → Option Document
  | .alias name => Ledger.get? finished name
  | _ => none

/-- How deep below the root the collections start that an alias may come back to. -/
def innerDepth : Nat := 2

/-- The document of a spot at a depth, given the places of the collections around it. -/
def build (book : Book) : (fuel depth : Nat) → (around : List (List Nat)) → Builder
  | 0, _, _ => fun _ _ => .error .malformed
  | fuel + 1, depth, around => fun s finished =>
    match finished? finished s.node with
    | some d => .ok ⟨d, true, finished⟩
    | none =>
      let s := book.resolve s
      if around.contains s.place then .ok ⟨.atom (.again s.isSequence), false, finished⟩
      else
        let around := if depth < innerDepth then around else s.place :: around
        (buildAs book fuel (build book fuel (depth + 1) around) s finished).map (finish s)

/-! ## Texts -/

/-- The characters that a text may hold. -/
def isReadable (c : Char) : Bool :=
  c == '\t' || c == '\n' || c == '\r' || (' ' ≤ c && c ≤ '~') || c == '\u0085' ||
    ('\u00a0' ≤ c && c ≤ '\ufffd') || 0x10000 ≤ c.toNat

/-- How many collections may lie within each other. -/
def depthLimit : Nat := 485

/-- The greatest number of collections that are open at once, given how many are open and how many
have been. -/
def nesting (depth deepest : Nat) : List Token → Nat
  | [] => deepest
  | t :: rest =>
    match t with
    | .blockSequence | .blockMapping | .flowSequence | .flowMapping =>
      nesting (depth + 1) (max (depth + 1) deepest) rest
    | .blockEnd | .flowSequenceEnd | .flowMappingEnd => nesting (depth - 1) deepest rest
    | _ => nesting depth deepest rest

/-- The document that a text spells; an empty text counts as null. A byte order mark at its start is
skipped. -/
def read (s : List Char) : Parsed Document := do
  if !s.all isReadable then throw .malformed
  let s := match s with
    | '\ufeff' :: rest => rest
    | s => s
  let tokens ← Parsed.ofOption (Token.ofText? s)
  if depthLimit < nesting 0 0 tokens then throw (.defect .tooDeep)
  let n ← Parsed.ofOption (Node.ofTokens? tokens)
  let book ← Parsed.ofOption (Book.ofNode? n)
  let b ← build book (s.length + 4) 0 [] ⟨n, []⟩ []
  return b.result

end RecordForge.Yaml
