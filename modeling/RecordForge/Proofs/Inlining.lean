import RecordForge.Proofs.Descriptors

/-!
# Schemas without names

A type that was defined by name can be written out wherever its name is used: an object defines the same type
in the place of its name as where it stands. The copy defines the name once more, and later uses of it find
the same type.

* `Objects`: the objects that have defined a name.
* `inlineType`, `inline`: a type and a document with their names replaced.
* `expand`, `parts_inlineType`, `fieldParts_inlineFields`: which of their parts are replaced, and by what.
* `Defines`, `Names`: what a name stands for, as an object and as a descriptor.
* `nameType_replace`: a name and its object are the same type.
* `TypeRead.inline`, `readFields_inline`: a type and a list of fields are read as before.
* **`load_inline`**: a schema without names is the same schema.
-/

namespace RecordForge

/-- A dictionary with an entry written. -/
def Document.set : Document → String → Document → Document
  | .dict entries, key, d => .dict (Ledger.set entries (.text key) d)
  | d, _, _ => d

/-- A dictionary with an entry written is read like a ledger. -/
theorem Document.get?_set {dict old : Document} {key : String} (h : dict.get? key = some old)
    (d : Document) (q : String) : (dict.set key d).get? q = if key = q then some d else dict.get? q := by
  cases dict with
  | dict entries =>
    rw [set, get?, get?, Ledger.get?_set]
    simp only [Leaf.value.injEq, Value.text.injEq]
  | atom l => cases h
  | list items => cases h

namespace Schema

/-! ## Replacing names -/

/-- The objects that have defined a name, each the last one that did. -/
abbrev Objects := Ledger String Document

namespace Objects

/-- The objects after a dictionary that describes a type: under its own name it is the last one. -/
def define (objects : Objects) (dict : Document) : Objects :=
  match ownName? dict with
  | some name => Ledger.set objects name dict
  | none => objects

/-- What stands in the place of a leaf: the object that it names, if there is one. -/
def replace (objects : Objects) (l : Leaf) : Document :=
  ((Document.atom l).text?.bind fun s => Ledger.get? objects s).getD (.atom l)

end Objects

mutual

/-- A type with its names replaced, and the objects after it. -/
def inlineType (objects : Objects) : Document → Document × Objects
  | .atom l => (objects.replace l, objects)
  | .list items =>
    let (items, objects) := inlineItems objects items
    (.list items, objects)
  | .dict entries => inlineEntry objects (.dict entries) entries

/-- Several types with their names replaced, one after the other. -/
def inlineItems (objects : Objects) : List Document → List Document × Objects
  | [] => ([], objects)
  | d :: rest =>
    let (d, objects) := inlineType objects d
    let (rest, objects) := inlineItems objects rest
    (d :: rest, objects)

/-- A dictionary with the names of the type within it replaced, found from its entries. One whose type is a
leaf stays as it is. -/
def inlineEntry (objects : Objects) (dict : Document) : List (Leaf × Document) → Document × Objects
  | [] => (dict, objects.define dict)
  | (k, d) :: rest =>
    if k = .text "type" then
      match d with
      | .atom _ => (dict, objects.define dict)
      | type =>
        let (type, objects) := inlineType objects type
        (dict.set "type" type, objects)
    else inlineEntry objects dict rest

end

/-- The entry of a field with the names of its type replaced. -/
def inlineField (objects : Objects) (entry : Document) : Document × Objects :=
  match entry.get? "type" with
  | some type =>
    let (type, objects) := inlineType objects type
    (entry.set "type" type, objects)
  | none => (entry, objects)

/-- The entries of some fields with the names of their types replaced, in order. -/
def inlineFields (objects : Objects) : List Document → List Document
  | [] => []
  | entry :: rest =>
    let (entry, objects) := inlineField objects entry
    entry :: inlineFields objects rest

/-- **A document with every name replaced** by the last object before it that defined this name. -/
def inline (d : Document) : Document :=
  match recordFields d with
  | .ok entries => d.set "fields" (.list (inlineFields [] entries))
  | .error _ => d

section Entries

variable {objects : Objects} {dict type : Document}

theorem inlineEntry_cons_ne {d : Document} {k : Leaf} (hk : k ≠ .text "type")
    (rest : List (Leaf × Document)) :
    inlineEntry objects dict ((k, d) :: rest) = inlineEntry objects dict rest := by
  cases d <;> simp only [inlineEntry, if_neg hk]

/-- In a dictionary around a type the names of the type are replaced. -/
theorem inlineEntry_inner (hpart : ∀ l, type ≠ .atom l) :
    ∀ {entries : List (Leaf × Document)}, Ledger.get? entries (.text "type") = some type →
      inlineEntry objects dict entries =
        (dict.set "type" (inlineType objects type).1, (inlineType objects type).2)
  | [], h => by cases h
  | (k, d) :: rest, h => by
    by_cases hk : k = .text "type"
    · rw [Ledger.get?, if_pos hk] at h
      cases h
      cases type with
      | atom l => exact absurd rfl (hpart l)
      | list items => simp only [inlineEntry, if_pos hk]
      | dict entries => simp only [inlineEntry, if_pos hk]
    · rw [Ledger.get?, if_neg hk] at h
      rw [inlineEntry_cons_ne hk]
      exact inlineEntry_inner hpart h

theorem inlineType_inner (hget : dict.get? "type" = some type) (hpart : ∀ l, type ≠ .atom l) :
    inlineType objects dict = (dict.set "type" (inlineType objects type).1, (inlineType objects type).2) := by
  cases dict with
  | dict entries => exact inlineEntry_inner hpart hget
  | atom l => cases hget
  | list items => cases hget

/-- A dictionary whose type is a leaf stays as it is, and may define a name. -/
theorem inlineEntry_leaf {l : Leaf} : ∀ {entries : List (Leaf × Document)},
    (Ledger.get? entries (.text "type")).getD (.value .null) = .atom l →
      inlineEntry objects dict entries = (dict, objects.define dict)
  | [], _ => rfl
  | (k, d) :: rest, h => by
    by_cases hk : k = .text "type"
    · rw [Ledger.get?, if_pos hk, Option.getD_some] at h
      subst h
      simp only [inlineEntry, if_pos hk]
    · rw [Ledger.get?, if_neg hk] at h
      rw [inlineEntry_cons_ne hk]
      exact inlineEntry_leaf h

end Entries

theorem list_ne_atom (items : List Document) (l : Leaf) : Document.list items ≠ .atom l := by
  intro h
  cases h

theorem dict_ne_atom (entries : List (Leaf × Document)) (l : Leaf) : Document.dict entries ≠ .atom l := by
  intro h
  cases h

/-- A dictionary is one around a type, or its type is a leaf. -/
theorem type_cases (dict : Document) :
    (∃ type, dict.get? "type" = some type ∧ ∀ l, type ≠ .atom l) ∨
      ∃ l, (dict.get? "type").getD (.value .null) = .atom l := by
  cases dict.get? "type" with
  | none => exact .inr ⟨_, rfl⟩
  | some type =>
    cases type with
    | atom l => exact .inr ⟨l, rfl⟩
    | list items => exact .inl ⟨_, rfl, list_ne_atom items⟩
    | dict entries => exact .inl ⟨_, rfl, dict_ne_atom entries⟩

/-- What is no leaf is none after its names are replaced. -/
theorem inlineType_ne_atom {type : Document} (hpart : ∀ l, type ≠ .atom l) (objects : Objects) (l : Leaf) :
    (inlineType objects type).1 ≠ .atom l := by
  cases type with
  | atom l => exact absurd rfl (hpart l)
  | list items => exact list_ne_atom _ l
  | dict entries =>
    rcases type_cases (.dict entries) with ⟨type, hget, htype⟩ | ⟨l, hget⟩
    · rw [inlineType_inner hget htype]
      exact dict_ne_atom _ _
    · rw [inlineType, inlineEntry_leaf hget]
      exact dict_ne_atom entries _

/-! ## The parts that are replaced -/

/-- What stands in the place of a part: the last part before it that has the name, if the part is a name. The
parts before it are given from the last to the first. -/
def standIn (known : List Document) (d : Document) : Document :=
  (d.text?.bind fun s => known.find? fun x => ownName? x = some s).getD d

/-- Parts in whose places others stand, in order. -/
def expand (known : List Document) : List Document → List Document
  | [] => []
  | d :: rest => standIn known d :: expand (d :: known) rest

theorem expand_append : ∀ (known before after : List Document),
    expand known (before ++ after) = expand known before ++ expand (before.reverse ++ known) after
  | _, [], _ => rfl
  | known, d :: before, after => by
    rw [List.cons_append, expand, expand, expand_append (d :: known) before after, List.reverse_cons,
      List.append_assoc, List.singleton_append, List.cons_append]

/-- Some objects are those that the parts before have defined. -/
structure Defined (objects : Objects) (known : List Document) : Prop where
  found : ∀ s, Ledger.get? objects s = known.find? fun x => ownName? x = some s
  single : ∀ x ∈ known, parts x = [x]

section Parts

variable {objects : Objects} {known : List Document}

theorem Defined.cons_atom (h : Defined objects known) (l : Leaf) : Defined objects (.atom l :: known) where
  found := fun s => (h.found s).trans (List.find?_cons_of_neg (by simp [ownName?, Document.get?])).symm
  single := fun x hx => by
    rcases List.mem_cons.mp hx with rfl | hx
    · rfl
    · exact h.single x hx

/-- A dictionary whose type is a leaf is the last object of its name. -/
theorem Defined.define (h : Defined objects known) {dict : Document} (hdict : parts dict = [dict]) :
    Defined (objects.define dict) (dict :: known) where
  found := fun s => by
    unfold Objects.define
    cases hown : ownName? dict with
    | none =>
      rw [List.find?_cons_of_neg (by simp [hown])]
      exact h.found s
    | some name =>
      rw [Ledger.get?_set]
      by_cases hs : name = s
      · rw [if_pos hs, List.find?_cons_of_pos (by simp [hown, hs])]
      · rw [if_neg hs, List.find?_cons_of_neg (by simp [hown, hs])]
        exact h.found s
  single := fun x hx => by
    rcases List.mem_cons.mp hx with rfl | hx
    · exact hdict
    · exact h.single x hx

theorem partsOfEntries_cons_ne {dict d : Document} {k : Leaf} (hk : k ≠ .text "type")
    (rest : List (Leaf × Document)) :
    partsOfEntries dict ((k, d) :: rest) = partsOfEntries dict rest := by
  cases d <;> simp only [partsOfEntries, if_neg hk]

/-- A dictionary around a type has the parts of the type, also after its names are replaced. -/
theorem parts_set {dict type : Document} (hget : dict.get? "type" = some type) (hpart : ∀ l, type ≠ .atom l) :
    parts (dict.set "type" (inlineType objects type).1) = parts (inlineType objects type).1 := by
  have hset := Document.get?_set hget (inlineType objects type).1 "type"
  rw [if_pos rfl] at hset
  exact parts_inner hset (inlineType_ne_atom hpart objects)

/-- In the place of a leaf stands a single part. -/
theorem parts_replace (h : Defined objects known) (l : Leaf) :
    parts (objects.replace l) = [standIn known (.atom l)] := by
  unfold Objects.replace standIn
  cases (Document.atom l).text? with
  | none => rfl
  | some s =>
    rw [Option.bind_some, Option.bind_some, h.found s]
    cases hfind : known.find? fun x => ownName? x = some s with
    | none => rfl
    | some dict => exact h.single dict (List.mem_of_find?_eq_some hfind)

end Parts

mutual

/-- **The parts of a type with its names replaced**: in the place of each one stands the last object before it
that it names. -/
theorem parts_inlineType : ∀ {objects : Objects} {known : List Document} (type : Document),
    Defined objects known → parts (inlineType objects type).1 = expand known (parts type) ∧
      Defined (inlineType objects type).2 ((parts type).reverse ++ known)
  | _, _, .atom l, h => ⟨parts_replace h l, h.cons_atom l⟩
  | _, _, .list items, h => parts_inlineItems items h
  | _, _, .dict entries, h => parts_inlineEntry entries rfl h
termination_by structural _ _ type => type

theorem parts_inlineItems : ∀ {objects : Objects} {known : List Document} (items : List Document),
    Defined objects known → partsOfItems (inlineItems objects items).1 = expand known (partsOfItems items) ∧
      Defined (inlineItems objects items).2 ((partsOfItems items).reverse ++ known)
  | _, _, [], h => ⟨rfl, h⟩
  | _, known, d :: rest, h => by
    obtain ⟨hd, h₁⟩ := parts_inlineType d h
    obtain ⟨hrest, h₂⟩ := parts_inlineItems rest h₁
    simp only [inlineItems, partsOfItems]
    rw [hd, hrest, expand_append, List.reverse_append, List.append_assoc]
    exact ⟨rfl, h₂⟩
termination_by structural _ _ items => items

theorem parts_inlineEntry : ∀ {objects : Objects} {known : List Document} {all : List (Leaf × Document)}
    (entries : List (Leaf × Document)),
      (Document.dict all).get? "type" = Ledger.get? entries (.text "type") →
      Defined objects known →
        parts (inlineEntry objects (.dict all) entries).1 = expand known (partsOfEntries (.dict all) entries) ∧
          Defined (inlineEntry objects (.dict all) entries).2
            ((partsOfEntries (.dict all) entries).reverse ++ known)
  | _, _, all, [], hall, h => by
    have hsingle : parts (.dict all) = [.dict all] := partsOfEntries_leaf (congrArg (Option.getD · _) hall)
    exact ⟨hsingle, h.define hsingle⟩
  | _, _, all, (k, d) :: rest, hall, h => by
    by_cases hk : k = .text "type"
    · rw [Ledger.get?, if_pos hk] at hall
      cases d with
      | atom l =>
        have hsingle : parts (.dict all) = [.dict all] := partsOfEntries_leaf (congrArg (Option.getD · _) hall)
        simp only [inlineEntry, partsOfEntries, if_pos hk]
        exact ⟨hsingle, h.define hsingle⟩
      | list items =>
        simp only [inlineEntry, partsOfEntries, if_pos hk]
        rw [parts_set hall (list_ne_atom items)]
        exact parts_inlineType (.list items) h
      | dict entries =>
        simp only [inlineEntry, partsOfEntries, if_pos hk]
        rw [parts_set hall (dict_ne_atom entries)]
        exact parts_inlineType (.dict entries) h
    · rw [Ledger.get?, if_neg hk] at hall
      rw [inlineEntry_cons_ne hk, partsOfEntries_cons_ne hk]
      exact parts_inlineEntry rest hall h
termination_by structural _ _ _ entries => entries

end

/-- **So do the parts of some fields**, one field after the other. -/
theorem fieldParts_inlineFields : ∀ {objects : Objects} {known : List Document} (entries : List Document),
    Defined objects known → fieldParts (inlineFields objects entries) = expand known (fieldParts entries)
  | _, _, [], _ => rfl
  | objects, known, entry :: rest, h => by
    have hcons (entry : Document) (rest : List Document) :
        fieldParts (entry :: rest) = ((entry.get? "type").map parts).getD [] ++ fieldParts rest :=
      List.flatMap_cons
    rw [inlineFields, hcons, hcons]
    cases hget : entry.get? "type" with
    | none =>
      simp only [inlineField, hget]
      exact fieldParts_inlineFields rest h
    | some type =>
      obtain ⟨htype, h'⟩ := parts_inlineType type h
      have hset := Document.get?_set hget (inlineType objects type).1 "type"
      rw [if_pos rfl] at hset
      simp only [inlineField, hget, hset, Option.map_some, Option.getD_some]
      rw [htype, fieldParts_inlineFields rest h', expand_append]

/-! ## What a name stands for -/

/-- A dictionary describes a type under its own name. -/
structure Defines (name : String) (dict : Document) (x : Descriptor) : Prop where
  own : ownName? dict = some name
  described : ∃ l, (dict.get? "type").getD (.value .null) = .atom l ∧ describe x.name dict l = .ok x

/-- Some objects and the types that are defined by name: the same names, each object with the type that it
describes. -/
def Names (objects : Objects) (named : NamedTypes) : Prop :=
  ∀ s, Option.Rel (Defines s) (Ledger.get? objects s) (Ledger.get? named s)

section Types

variable {field : String} {objects : Objects} {dict : Document} {named named₂ : NamedTypes} {d x : Descriptor}

/-- A type that is defined by name is found under the text that a leaf is. -/
theorem find?_eq (named : NamedTypes) (l : Leaf) :
    named.find? l = (Document.atom l).text?.bind fun s => Ledger.get? named s := by
  rcases l with (_ | _ | _ | _ | _) | _ | _ <;> rfl

/-- A name without an object is no type. -/
theorem Names.get?_eq_none (h : Names objects named) {s : String} (hobject : Ledger.get? objects s = none) :
    Ledger.get? named s = none := by
  have hs := h s
  rw [hobject] at hs
  generalize Ledger.get? named s = x at hs
  cases hs
  rfl

/-- A name with an object is the type that it describes. -/
theorem Names.exists_defines (h : Names objects named) {s : String}
    (hobject : Ledger.get? objects s = some dict) :
    ∃ x, Ledger.get? named s = some x ∧ Defines s dict x := by
  have hs := h s
  rw [hobject] at hs
  generalize Ledger.get? named s = x at hs
  cases hs with
  | some hdefines => exact ⟨_, rfl, hdefines⟩

/-- A dictionary describes the same type for every field. -/
theorem describe_field (field : String) {other : String} {l : Leaf} (h : describe other dict l = .ok x) :
    describe field dict l = .ok ⟨field, x.kind, x.symbols, x.members, x.nullable⟩ := by
  rcases describe_ok h with ⟨items, s, rest, rfl, hitems, htexts, rfl⟩ | ⟨kind, hne, hkind, rfl⟩
  · rw [describe, if_pos rfl, readEnum, hitems]
    simp only [htexts]
  · rw [describe, if_neg hne, readKind, hkind]
    rfl

/-- A dictionary that describes a type defines its own name, as an object and as a type. -/
theorem Names.define (h : Names objects named) {l : Leaf}
    (hget : (dict.get? "type").getD (.value .null) = .atom l) (hd : describe field dict l = .ok d) :
    Names (objects.define dict) (named.define dict d) := by
  unfold Objects.define NamedTypes.define
  cases hown : ownName? dict with
  | none => exact h
  | some name =>
    intro s
    rw [Ledger.get?_set, Ledger.get?_set]
    by_cases hs : name = s
    · rw [if_pos hs, if_pos hs]
      obtain ⟨-, rfl⟩ := definable_of_describe hget hd
      exact .some ⟨hown.trans (congrArg some hs), l, hget, hd⟩
    · rw [if_neg hs, if_neg hs]
      exact h s

/-- **A name and its object are the same type**: where a name is read, a copy of the object that it stands for
is read in its place. -/
theorem nameType_replace (h : Names objects named) (h₂ : Names objects named₂) {type : Leaf}
    (hd : nameType field type named = .ok d) :
    ∃ named', TypeRead field (objects.replace type) named₂ d named' ∧ Names objects named' := by
  rw [nameType, find?_eq] at hd
  unfold Objects.replace
  cases htext : (Document.atom type).text? with
  | none =>
    refine ⟨named₂, .name ?_, h₂⟩
    rw [nameType, find?_eq, htext]
    rwa [htext] at hd
  | some s =>
    rw [htext] at hd
    cases hobject : Ledger.get? objects s with
    | none =>
      rw [Option.bind_some, hobject]
      rw [Option.bind_some, h.get?_eq_none hobject] at hd
      refine ⟨named₂, .name ?_, h₂⟩
      rw [nameType, find?_eq, htext, Option.bind_some, h₂.get?_eq_none hobject]
      exact hd
    | some dict =>
      obtain ⟨x, hx, hdefines⟩ := h.exists_defines hobject
      obtain ⟨l, hget, hdescribe⟩ := hdefines.described
      rw [Option.bind_some, hobject]
      rw [Option.bind_some, hx] at hd
      cases hd
      have hcopy := describe_field field hdescribe
      -- the copy defines the name once more, as the object that it stands for already
      have hnames := h₂.define hget hcopy
      have hsame : objects.define dict = objects := by
        rw [Objects.define, hdefines.own]
        exact Ledger.set_of_get? hobject
      rw [hsame] at hnames
      cases dict with
      | dict entries => exact ⟨_, .dict hget hcopy, hnames⟩
      | atom l => cases hdefines.own
      | list items => cases hdefines.own

end Types

/-! ## Reading without names -/

section Reading

variable {field : String}

mutual

/-- **A type with its names replaced is read as before**, whatever has been read in the same way by then. -/
theorem TypeRead.inline : ∀ {type : Document} {named named' : NamedTypes} {d : Descriptor},
    TypeRead field type named d named' → ∀ {objects : Objects} {named₂ : NamedTypes},
      Names objects named → Names objects named₂ →
        Names (inlineType objects type).2 named' ∧
          ∃ named₂', TypeRead field (inlineType objects type).1 named₂ d named₂' ∧
            Names (inlineType objects type).2 named₂'
  | _, _, _, _, .name hd, _, _, h, h₂ => ⟨h, nameType_replace h h₂ hd⟩
  | _, _, _, _, .union hms, _, _, h, h₂ => by
    obtain ⟨h', named₂', hms₂, h₂'⟩ := hms.inline h h₂
    exact ⟨h', named₂', .union hms₂, h₂'⟩
  | _, _, _, _, .inner hget hpart hd, objects, _, h, h₂ => by
    obtain ⟨h', named₂', hd₂, h₂'⟩ := hd.inline h h₂
    rw [inlineType_inner hget hpart]
    exact ⟨h', named₂', .inner (Document.get?_set hget _ _) (inlineType_ne_atom hpart objects) hd₂, h₂'⟩
  | _, _, _, _, .dict hget hd, _, named₂, h, h₂ => by
    rw [inlineType, inlineEntry_leaf hget]
    exact ⟨h.define hget hd, _, .dict hget hd, h₂.define hget hd⟩

theorem MembersRead.inline : ∀ {items : List Document} {named named' : NamedTypes} {ms : List Descriptor},
    MembersRead field items named ms named' → ∀ {objects : Objects} {named₂ : NamedTypes},
      Names objects named → Names objects named₂ →
        Names (inlineItems objects items).2 named' ∧
          ∃ named₂', MembersRead field (inlineItems objects items).1 named₂ ms named₂' ∧
            Names (inlineItems objects items).2 named₂'
  | _, _, _, _, .nil, _, named₂, h, h₂ => ⟨h, named₂, .nil, h₂⟩
  | _, _, _, _, .cons hd hrest, _, _, h, h₂ => by
    obtain ⟨h', named₂', hd₂, h₂'⟩ := hd.inline h h₂
    obtain ⟨h'', named₂'', hrest₂, h₂''⟩ := hrest.inline h' h₂'
    exact ⟨h'', named₂'', .cons hd₂ hrest₂, h₂''⟩

end

end Reading

/-- The entry of a field keeps its name. -/
theorem fieldName_set {entry type old : Document} {name : String} (hget : entry.get? "type" = some old)
    (h : fieldName entry = .ok name) : fieldName (entry.set "type" type) = .ok name := by
  have hname : ownName? (entry.set "type" type) = some name := by
    rw [ownName?, Document.get?_set hget, if_neg (by decide)]
    exact ownName?_of_fieldName h
  rw [fieldName, hname]

/-- **Fields with their names replaced are read as before.** -/
theorem readFields_inline : ∀ {entries : List Document} {l l₂ m : Loader} {objects : Objects},
    l.readFields entries = (m, none) → Names objects l.named → Names objects l₂.named →
      l₂.fields = l.fields →
        ∃ m₂, l₂.readFields (inlineFields objects entries) = (m₂, none) ∧ m₂.fields = m.fields
  | [], _, l₂, _, _, h, _, _, hfields => by
    cases h
    exact ⟨l₂, rfl, hfields⟩
  | entry :: rest, l, l₂, _, objects, h, hnames, hnames₂, hfields => by
    simp only [Loader.readFields] at h
    split at h
    · cases h
    · rename_i d named hread
      obtain ⟨hname, hnew, type, hget, htype⟩ := readField_ok hread
      obtain ⟨hnames', named₂, htype₂, hnames₂'⟩ := htype.inline hnames hnames₂
      have hset := Document.get?_set hget (inlineType objects type).1 "type"
      rw [if_pos rfl] at hset
      have hnew₂ : d.name ∉ l₂.names := by
        rw [Loader.names, hfields]
        exact hnew
      have hread₂ := run_readField (fieldName_set hget hname) hnew₂ hset htype₂
      simp only [inlineFields, inlineField, hget, Loader.readFields, hread₂]
      exact readFields_inline h hnames' hnames₂' (by rw [hfields])

/-- A record stays one. -/
theorem declares_inline {d : Document} {entries : List Document} (h : Declares d entries) :
    Declares (inline d) (inlineFields [] entries) := by
  have hset := Document.get?_set h.2 (.list (inlineFields [] entries))
  rw [inline, recordFields_eq_ok.mpr h]
  exact ⟨(hset "type").trans h.1, hset "fields"⟩

/-- **A schema without names is the same schema.** Take a document that can be loaded, and replace every name of
a type by the last object before it that defined this name, at whatever depth. In the place of each part of the
types stands this object, or the part itself if it names none. The document can be loaded as well, and it has
the same fields: their names, kinds, symbols, members, and whether they offer null. -/
theorem load_inline {l : Loader} {d : Document} (h : (l.load d).2 = none) (l' : Loader) :
    (∃ entries entries', Declares d entries ∧ Declares (inline d) entries' ∧
        fieldParts entries' = expand [] (fieldParts entries)) ∧
      (l'.load (inline d)).2 = none ∧ (l'.load (inline d)).1.fields = (l.load d).1.fields := by
  obtain ⟨-, entries, hentries, -⟩ := names_of_load h
  have hdeclares := recordFields_eq_ok.mp hentries
  have hdeclares' := declares_inline hdeclares
  rw [load_of_recordFields hentries] at h ⊢
  rw [load_of_recordFields (recordFields_eq_ok.mpr hdeclares')]
  have hnames (d : Document) : Names [] (Loader.opened d).named := fun s => .none
  have hfields : (Loader.opened (inline d)).fields = (Loader.opened d).fields := rfl
  obtain ⟨m, hm, hfields⟩ := readFields_inline (Prod.ext rfl h) (hnames d) (hnames (inline d)) hfields
  rw [hm]
  have hnone : Defined [] [] := ⟨fun _ => rfl, fun x hx => absurd hx List.not_mem_nil⟩
  exact ⟨⟨entries, _, hdeclares, hdeclares', fieldParts_inlineFields entries hnone⟩, rfl, hfields⟩

/-- An enum that has the name `Size`. -/
def sizeEnum (symbols : List String) : Document :=
  .dict [(.text "type", .text "enum"), (.text "name", .text "Size"),
    (.text "symbols", .list (symbols.map .text))]

/-- A record that defines a name twice and uses it after each time. -/
def sizeDocument : Document :=
  Loader.just [
    .dict [(.text "name", .text "shirt"), (.text "type", .list [.text "null", sizeEnum ["S", "L"]])],
    .dict [(.text "name", .text "vest"),
      (.text "type", .dict [(.text "type", .list [.text "Size", .text "long"])])],
    .dict [(.text "name", .text "shoe"), (.text "type", .list [sizeEnum ["40", "41"], .list [.text "Size"]])]]

/-- Each name is replaced by the enum before it, and the fields are the same. -/
theorem load_inline_size :
    (Loader.load {} sizeDocument).2 = none ∧
      inline sizeDocument = Loader.just [
        .dict [(.text "name", .text "shirt"), (.text "type", .list [.text "null", sizeEnum ["S", "L"]])],
        .dict [(.text "name", .text "vest"),
          (.text "type", .dict [(.text "type", .list [sizeEnum ["S", "L"], .text "long"])])],
        .dict [(.text "name", .text "shoe"),
          (.text "type", .list [sizeEnum ["40", "41"], .list [sizeEnum ["40", "41"]]])]] ∧
      (Loader.load {} (inline sizeDocument)).1.fields = (Loader.load {} sizeDocument).1.fields := by
  obtain ⟨-, -, hfields⟩ := load_inline (l := {}) (d := sizeDocument) rfl {}
  exact ⟨rfl, rfl, hfields⟩

end Schema

end RecordForge
