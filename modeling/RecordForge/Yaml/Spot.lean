import RecordForge.Yaml.Node
import RecordForge.Yaml.Scalar

/-!
# Nodes in their places

An alias stands for the node with its anchor, which may even be one around the alias. So that such a
node is known again, each node is taken together with its place in the tree.

* `Spot`: a node in its place, with the spots of its parts.
* `Book`: the spots of the anchors, by name.
* `Book.ofNode?`: the book of a tree, in which each alias follows its anchor.
* `NodeType`: what a node is asked to be.
* `Book.text?`: the text of a spot that is asked to be a scalar.
-/

namespace RecordForge.Yaml

/-- A node and its place: which part of which part it is, from the node up to the root. -/
structure Spot where
  node : Node
  place : List Nat

namespace Spot

/-- The items of a sequence. -/
def items (s : Spot) : List Spot :=
  match s.node with
  | .sequence _ items => items.mapIdx fun i n => ⟨n, i :: s.place⟩
  | _ => []

/-- The entries of a mapping. -/
def entries (s : Spot) : List (Spot × Spot) :=
  match s.node with
  | .mapping _ entries =>
    entries.mapIdx fun i (k, v) => (⟨k, 2 * i :: s.place⟩, ⟨v, (2 * i + 1) :: s.place⟩)
  | _ => []

/-- Whether a spot is a mapping. -/
def isMapping (s : Spot) : Bool :=
  match s.node with
  | .mapping _ _ => true
  | _ => false

/-- Whether a spot is a sequence. -/
def isSequence (s : Spot) : Bool :=
  match s.node with
  | .sequence _ _ => true
  | _ => false

end Spot

/-! ## Anchors -/

/-- The spots of the anchors. -/
abbrev Book := Ledger String Spot

namespace Book

/-- The book after a node with some properties: an anchor must be new. -/
def register? (p : Properties) (s : Spot) (book : Book) : Option Book :=
  match p.anchor with
  | none => some book
  | some name => if (Ledger.keys book).contains name then none else some (book ++ [(name, s)])

mutual

/-- The book after a node at a place; an anchor is there before the parts of its node. -/
def add? (place : List Nat) : Node → Book → Option Book
  | .alias name, book => if (Ledger.keys book).contains name then some book else none
  | .scalar p text isPlain, book => register? p ⟨.scalar p text isPlain, place⟩ book
  | .sequence p items, book =>
    (register? p ⟨.sequence p items, place⟩ book).bind (addItems? place 0 items)
  | .mapping p entries, book =>
    (register? p ⟨.mapping p entries, place⟩ book).bind (addEntries? place 0 entries)

/-- The book after the items of a sequence from one of them on. -/
def addItems? (place : List Nat) (i : Nat) : List Node → Book → Option Book
  | [], book => some book
  | n :: rest, book => (add? (i :: place) n book).bind (addItems? place (i + 1) rest)

/-- The book after the entries of a mapping from one of them on. -/
def addEntries? (place : List Nat) (i : Nat) : List (Node × Node) → Book → Option Book
  | [], book => some book
  | (k, v) :: rest, book =>
    ((add? (2 * i :: place) k book).bind (add? ((2 * i + 1) :: place) v)).bind
      (addEntries? place (i + 1) rest)

end

/-- The book of a tree, if each anchor is new and each alias follows its anchor. -/
def ofNode? (n : Node) : Option Book := add? [] n []

/-- The spot that a spot stands for. -/
def resolve (book : Book) (s : Spot) : Spot :=
  match s.node with
  | .alias name => (Ledger.get? book name).getD s
  | _ => s

end Book

/-! ## Types of nodes -/

/-- What a node is asked to be. -/
inductive NodeType where
  | scalar (type : ScalarType)
  | list
  /-- A list of mappings of one entry each. -/
  | pairs
  | dict
  /-- The keys of a mapping. -/
  | set
  deriving DecidableEq

namespace NodeType

/-- The types that tags ask for. -/
def tagged : List (String × NodeType) :=
  [("null", .scalar .null), ("bool", .scalar .boolean), ("int", .scalar .integer),
   ("float", .scalar .real), ("timestamp", .scalar .stamp), ("binary", .scalar .bytes),
   ("str", .scalar .text), ("merge", .scalar .merge), ("value", .scalar .equals),
   ("seq", .list), ("omap", .pairs), ("pairs", .pairs), ("map", .dict), ("set", .set)]

/-- The type that a tag asks for. -/
def ofTag? (tag : String) : Option NodeType :=
  Ledger.get? (tagged.map fun (name, type) => (Node.standard ++ name, type)) tag

/-- The type of a collection: the one that its tag asks for, if it has a tag that asks for anything. -/
def ofCollection? (p : Properties) (untagged : NodeType) : Option NodeType :=
  match p.tag with
  | none => some untagged
  | some t => if t = "!" then some untagged else ofTag? t

/-- The type of a node. -/
def of? : Node → Option NodeType
  | .alias _ => none
  | .scalar p text isPlain =>
    match p.tag with
    | some t => ofTag? t
    | none => some (.scalar (if isPlain then .ofPieces text else .text))
  | .sequence p _ => ofCollection? p .list
  | .mapping p _ => ofCollection? p .dict

end NodeType

/-- Whether a spot stands for a scalar of a type. -/
def Book.isScalar (book : Book) (type : ScalarType) (s : Spot) : Bool :=
  NodeType.of? (book.resolve s).node = some (.scalar type)

/-- The text of a spot that is asked to be a scalar: a mapping stands for its entry under the sign of
equality. -/
def Book.text? (book : Book) : (fuel : Nat) → Spot → Option (List Text.Piece)
  | 0, _ => none
  | fuel + 1, s =>
    let s := book.resolve s
    match s.node with
    | .scalar _ text _ => some text
    | _ => (s.entries.find? fun (k, _) => book.isScalar .equals k).bind fun (_, v) =>
      book.text? fuel v

end RecordForge.Yaml
