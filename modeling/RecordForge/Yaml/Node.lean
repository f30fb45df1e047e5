import RecordForge.Yaml.Token

/-!
# Trees of nodes

The tokens of a text describe a tree of scalars, sequences and mappings. A node that is left out is an
empty plain scalar.

* `Node`: the tree, with the anchors and tags that its nodes are given.
* `Node.ofTokens?`: the tree of the only document of a text.

Each call of a reader within the recursion takes a token or stands before a call that does, so the
depth of the recursion is at most three times the number of tokens.
-/

namespace RecordForge.Yaml

/-- The anchor and the tag that a node is given. The tag is written out in full. -/
structure Properties where
  anchor : Option String := none
  tag : Option String := none

/-- A tree of nodes. -/
inductive Node where
  /-- A node that was read before. -/
  | alias (name : String)
  | scalar (p : Properties) (text : List Text.Piece) (isPlain : Bool)
  | sequence (p : Properties) (items : List Node)
  | mapping (p : Properties) (entries : List (Node × Node))

namespace Node

/-- A node that is left out. -/
def missing : Node := .scalar {} [] true

/-- Where a node stands. -/
inductive Place where
  /-- Within a flow collection. -/
  | flow
  /-- An item of a block sequence, or a whole document. -/
  | block
  /-- A key or a value of a block mapping, where a sequence needs no further indentation. -/
  | entry
  deriving DecidableEq

/-- The tags of handles. -/
abbrev Handles := List (String × String)

/-- What tags of the notation itself start with. -/
def standard : String := "tag:yaml.org,2002:"

/-- The handles that need no directive. -/
def standardHandles : Handles := [("!", "!"), ("!!", standard)]

/-- A tag written out in full. -/
def fullTag? (handles : Handles) (handle : Option String) (suffix : String) : Option String :=
  match handle with
  | none => some suffix
  | some h => (Ledger.get? handles h).map fun start => start ++ suffix

/-- The properties that tokens start with: an anchor and a tag in either order. -/
def properties? (handles : Handles) : List Token → Option (Properties × List Token)
  | .anchor a :: .tag h s :: ts => (fullTag? handles h s).map fun t => (⟨some a, some t⟩, ts)
  | .tag h s :: .anchor a :: ts => (fullTag? handles h s).map fun t => (⟨some a, some t⟩, ts)
  | .anchor a :: ts => some (⟨some a, none⟩, ts)
  | .tag h s :: ts => (fullTag? handles h s).map fun t => (⟨none, some t⟩, ts)
  | ts => some ({}, ts)

/-- A scalar. The tag of a single exclamation mark asks for the meaning that the text has when plain. -/
def ofScalar (p : Properties) (text : List Text.Piece) (isPlain : Bool) : Node :=
  if p.tag = some "!" then .scalar { p with tag := none } text true
  else .scalar p text isPlain

/-- The node that properties alone stand for. -/
def bare? (p : Properties) (ts : List Token) : Option (Node × List Token) :=
  if p.anchor.isSome || p.tag.isSome then some (ofScalar p [] true, ts) else none

/-- Whether the first of some tokens shows that an item of a block sequence is left out. -/
def endsItem : List Token → Bool
  | .item :: _ | .blockEnd :: _ => true
  | _ => false

/-- Whether the first of some tokens shows that a key or a value of a block mapping is left out. -/
def endsEntry : List Token → Bool
  | .key :: _ | .value :: _ | .blockEnd :: _ => true
  | _ => false

/-- Whether the first of some tokens shows that an item of a sequence among the values of a block
mapping is left out. -/
def endsInnerItem (ts : List Token) : Bool := endsItem ts || endsEntry ts

/-- Whether the first of some tokens shows that a value within a flow collection is left out, given
the token that ends the collection. -/
def endsFlowValue (last : Token) : List Token → Bool
  | .comma :: _ => true
  | t :: _ => t == last
  | [] => false

/-- Whether the first of some tokens shows that a key within a flow collection is left out. -/
def endsFlowKey (last : Token) (ts : List Token) : Bool :=
  endsFlowValue last ts || ts.head? == some .value

/-! ## Reading a tree -/

mutual

/-- The node that tokens start with. -/
def read? (handles : Handles) (place : Place) :
    (fuel : Nat) → List Token → Option (Node × List Token)
  | 0, _ => none
  | _, .alias name :: ts => some (.alias name, ts)
  | fuel + 1, ts =>
    (properties? handles ts).bind fun (p, ts) =>
      match ts, place with
      | .scalar text isPlain :: ts, _ => some (ofScalar p text isPlain, ts)
      | .flowSequence :: ts, _ =>
        (flowItems? handles fuel true ts).map fun (items, ts) => (.sequence p items, ts)
      | .flowMapping :: ts, _ =>
        (flowEntries? handles fuel true ts).map fun (entries, ts) => (.mapping p entries, ts)
      | ts, .flow => bare? p ts
      | .blockSequence :: ts, _ =>
        (blockItems? handles fuel ts).map fun (items, ts) => (.sequence p items, ts)
      | .blockMapping :: ts, _ =>
        (blockEntries? handles fuel ts).map fun (entries, ts) => (.mapping p entries, ts)
      | .item :: ts, .entry =>
        (innerItems? handles fuel (.item :: ts)).map fun (items, ts) => (.sequence p items, ts)
      | ts, _ => bare? p ts

/-- The items of a block sequence and its end. -/
def blockItems? (handles : Handles) : (fuel : Nat) → List Token → Option (List Node × List Token)
  | 0, _ => none
  | _, .blockEnd :: ts => some ([], ts)
  | fuel + 1, .item :: ts => do
    let (n, ts) ← if endsItem ts then some (missing, ts) else read? handles .block fuel ts
    let (more, ts) ← blockItems? handles fuel ts
    return (n :: more, ts)
  | _, _ => none

/-- The items of a sequence among the values of a block mapping. -/
def innerItems? (handles : Handles) : (fuel : Nat) → List Token → Option (List Node × List Token)
  | 0, _ => none
  | fuel + 1, .item :: ts => do
    let (n, ts) ← if endsInnerItem ts then some (missing, ts) else read? handles .block fuel ts
    let (more, ts) ← innerItems? handles fuel ts
    return (n :: more, ts)
  | _, ts => some ([], ts)

/-- The entries of a block mapping and its end. -/
def blockEntries? (handles : Handles) :
    (fuel : Nat) → List Token → Option (List (Node × Node) × List Token)
  | 0, _ => none
  | _, .blockEnd :: ts => some ([], ts)
  | fuel + 1, .key :: ts => do
    let (k, ts) ← if endsEntry ts then some (missing, ts) else read? handles .entry fuel ts
    let (v, ts) ← match ts with
      | .value :: ts => if endsEntry ts then some (missing, ts) else read? handles .entry fuel ts
      | ts => some (missing, ts)
    let (more, ts) ← blockEntries? handles fuel ts
    return ((k, v) :: more, ts)
  | _, _ => none

/-- A key within a flow collection and its value, after the sign before the key. -/
def flowEntry? (handles : Handles) (last : Token) :
    (fuel : Nat) → List Token → Option ((Node × Node) × List Token)
  | 0, _ => none
  | fuel + 1, ts => do
    let (k, ts) ← if endsFlowKey last ts then some (missing, ts) else read? handles .flow fuel ts
    let (v, ts) ← match ts with
      | .value :: ts =>
        if endsFlowValue last ts then some (missing, ts) else read? handles .flow fuel ts
      | ts => some (missing, ts)
    return ((k, v), ts)

/-- The items of a flow sequence and its end; all but the first follow a comma. A key among them
makes a mapping of one entry. -/
def flowItems? (handles : Handles) :
    (fuel : Nat) → (isFirst : Bool) → List Token → Option (List Node × List Token)
  | 0, _, _ => none
  | _, _, .flowSequenceEnd :: ts => some ([], ts)
  | fuel + 1, isFirst, ts => do
    let ts ← match ts with
      | .comma :: ts => if isFirst then none else some ts
      | ts => if isFirst then some ts else none
    match ts with
    | .flowSequenceEnd :: ts => return ([], ts)
    | .key :: ts =>
      let (e, ts) ← flowEntry? handles .flowSequenceEnd fuel ts
      let (more, ts) ← flowItems? handles fuel false ts
      return (.mapping {} [e] :: more, ts)
    | ts =>
      let (n, ts) ← read? handles .flow fuel ts
      let (more, ts) ← flowItems? handles fuel false ts
      return (n :: more, ts)

/-- The entries of a flow mapping and its end; all but the first follow a comma. A node that is no
key has no value. -/
def flowEntries? (handles : Handles) :
    (fuel : Nat) → (isFirst : Bool) → List Token → Option (List (Node × Node) × List Token)
  | 0, _, _ => none
  | _, _, .flowMappingEnd :: ts => some ([], ts)
  | fuel + 1, isFirst, ts => do
    let ts ← match ts with
      | .comma :: ts => if isFirst then none else some ts
      | ts => if isFirst then some ts else none
    match ts with
    | .flowMappingEnd :: ts => return ([], ts)
    | .key :: ts =>
      let (e, ts) ← flowEntry? handles .flowMappingEnd fuel ts
      let (more, ts) ← flowEntries? handles fuel false ts
      return (e :: more, ts)
    | ts =>
      let (n, ts) ← read? handles .flow fuel ts
      let (more, ts) ← flowEntries? handles fuel false ts
      return ((n, missing) :: more, ts)

end

/-! ## Documents -/

/-- The handles after the directives that tokens start with, and what follows them. A version is
given at most once and has the major number one, and a handle is given at most once. -/
def directives? (hasVersion : Bool) (handles : Handles) :
    List Token → Option (Handles × List Token)
  | .directive (.version major) :: ts =>
    if hasVersion || major != 1 then none else directives? true handles ts
  | .directive (.handle name start) :: ts =>
    if (Ledger.keys handles).contains name then none
    else directives? hasVersion (handles ++ [(name, start)]) ts
  | .directive .other :: ts => directives? hasVersion handles ts
  | ts => some (handles, ts)

/-- Whether tokens start with the end of a document. -/
def endsDocument : List Token → Bool
  | [] => true
  | .directive _ :: _ | .documentStart :: _ | .documentEnd :: _ => true
  | _ => false

/-- The tree after the directives and the start of a document. -/
def ofStarted? (ts : List Token) : Option (Node × List Token) := do
  let (given, ts) ← directives? false [] ts
  match ts with
  | .documentStart :: ts =>
    if endsDocument ts then some (missing, ts)
    else read? (given ++ standardHandles) .block (3 * ts.length + 1) ts
  | _ => none

/-- The tree of the only document of a text. A text without tokens counts as a missing node. -/
def ofTokens? (ts : List Token) : Option Node := do
  let (n, ts) ← match ts with
    | [] => some (missing, [])
    | .directive _ :: _ | .documentStart :: _ => ofStarted? ts
    | _ => read? standardHandles .block (3 * ts.length + 1) ts
  if ts.all (· == .documentEnd) then some n else none

end Node

end RecordForge.Yaml
