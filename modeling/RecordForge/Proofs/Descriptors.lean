import RecordForge.Proofs.Histories

/-!
# Descriptors of a loaded schema

Generators trust the descriptors of their fields: an enum is taken to have symbols, and only a union is
asked for its members. Descriptors are made in several places, from lists, from dictionaries, and from
names that were defined before, and this is what all of them keep to.

* `Descriptor.Within`: a descriptor at any depth of another one.
* `parts`: the leaves and dictionaries that a type comes down to, in the order of reading.
* `DeclaresSymbols`: what a dictionary says about the symbols of an enum.
* `Proper`, `TypeRead.proper`: what is true of every descriptor.
* `BareEnum`, `TypeRead.bare`: when an enum has no symbols.
* `Sound`: what one more field keeps up.
* **`descriptors_of_load`**: what the descriptors of a loaded schema are.
-/

namespace RecordForge

/-- A descriptor lies at some depth of another one, or is it. -/
inductive Descriptor.Within : Descriptor → Descriptor → Prop
  | refl (d : Descriptor) : Within d d
  | member {m x d : Descriptor} (hx : x ∈ d.members) (h : Within m x) : Within m d

/-- A descriptor without members has nothing else within it. -/
theorem Descriptor.Within.eq_of_members {m d : Descriptor} (h : m.Within d) (hd : d.members = []) :
    m = d := by
  cases h with
  | refl => rfl
  | member hx _ =>
    rw [hd] at hx
    exact absurd hx List.not_mem_nil

/-- Within a union lie the union and what lies within its members. -/
theorem Descriptor.within_union {m : Descriptor} {field : String} {ms : List Descriptor} :
    m.Within (.union field ms) ↔ m = .union field ms ∨ ∃ x ∈ ms, m.Within x := by
  constructor
  · intro h
    cases h with
    | refl => exact .inl rfl
    | member hx h => exact .inr ⟨_, hx, h⟩
  · rintro (rfl | ⟨x, hx, h⟩)
    · exact .refl _
    · exact .member hx h

/-- An enum without symbols. -/
def Descriptor.IsEmptyEnum (m : Descriptor) : Prop := m.kind = .enum ∧ m.symbols = []

/-- At some depth there is an enum without symbols. -/
def Descriptor.LacksSymbols (d : Descriptor) : Prop := ∃ m : Descriptor, m.Within d ∧ m.IsEmptyEnum

theorem Kind.name_of_ofName? {s : String} {kind : Kind} (h : Kind.ofName? s = some kind) :
    kind.name = s := by
  have hfound := List.find?_some h
  exact beq_iff_eq.mp hfound

/-! ## Distinct elements -/

/-- Elements without later repetitions stand in the order in which they come first. -/
theorem firsts_pairwise {α : Type} [DecidableEq α] : ∀ l : List α,
    (firsts l).Pairwise fun a b => l.idxOf a < l.idxOf b
  | [] => .nil
  | x :: l => by
    have hshift {b : α} (hb : b ∈ (firsts l).filter fun b => b ≠ x) :
        (x :: l).idxOf b = l.idxOf b + 1 := by
      have hne : b ≠ x := of_decide_eq_true (List.mem_filter.mp hb).2
      rw [List.idxOf_cons, beq_false_of_ne hne.symm, cond_false]
    rw [firsts, List.pairwise_cons]
    constructor
    · intro b hb
      rw [List.idxOf_cons_self, hshift hb]
      exact Nat.succ_pos _
    · refine ((firsts_pairwise l).filter _).imp_of_mem fun ha hb hlt => ?_
      rw [hshift ha, hshift hb]
      exact Nat.succ_lt_succ hlt

namespace Schema

/-! ## Parts of types -/

mutual

/-- The leaves and dictionaries that a type comes down to, in the order of reading. A dictionary around a
list or another dictionary is none of them. -/
def parts : Document → List Document
  | .atom l => [.atom l]
  | .list items => partsOfItems items
  | .dict entries => partsOfEntries (.dict entries) entries

/-- The parts of several types. -/
def partsOfItems : List Document → List Document
  | [] => []
  | d :: rest => parts d ++ partsOfItems rest

/-- The parts of a dictionary, found from its entries. -/
def partsOfEntries (dict : Document) : List (Leaf × Document) → List Document
  | [] => [dict]
  | (k, d) :: rest =>
    if k = .text "type" then
      match d with
      | .atom _ => [dict]
      | type => parts type
    else partsOfEntries dict rest

end

/-- A dictionary around a type has its parts. -/
theorem partsOfEntries_inner {dict type : Document} (hpart : ∀ l, type ≠ .atom l) :
    ∀ {entries : List (Leaf × Document)}, Ledger.get? entries (.text "type") = some type →
      partsOfEntries dict entries = parts type
  | [], h => by cases h
  | (k, d) :: rest, h => by
    by_cases hk : k = .text "type"
    · rw [Ledger.get?, if_pos hk] at h
      cases h
      cases type with
      | atom l => exact absurd rfl (hpart l)
      | list items => simp only [partsOfEntries, if_pos hk]
      | dict entries => simp only [partsOfEntries, if_pos hk]
    · rw [Ledger.get?, if_neg hk] at h
      have hrest : partsOfEntries dict rest = parts type := partsOfEntries_inner hpart h
      rw [← hrest]
      cases d <;> simp only [partsOfEntries, if_neg hk]

theorem parts_inner {dict type : Document} (hget : dict.get? "type" = some type)
    (hpart : ∀ l, type ≠ .atom l) : parts dict = parts type := by
  cases dict with
  | dict entries => exact partsOfEntries_inner hpart hget
  | atom l => cases hget
  | list items => cases hget

/-- A dictionary whose type is a leaf is a part itself. -/
theorem partsOfEntries_leaf {dict : Document} {type : Leaf} : ∀ {entries : List (Leaf × Document)},
    (Ledger.get? entries (.text "type")).getD (.value .null) = .atom type →
      partsOfEntries dict entries = [dict]
  | [], _ => rfl
  | (k, d) :: rest, h => by
    by_cases hk : k = .text "type"
    · rw [Ledger.get?, if_pos hk, Option.getD_some] at h
      subst h
      simp only [partsOfEntries, if_pos hk]
    · rw [Ledger.get?, if_neg hk] at h
      have hrest : partsOfEntries dict rest = [dict] := partsOfEntries_leaf h
      rw [← hrest]
      cases d <;> simp only [partsOfEntries, if_neg hk]

/-- The parts of the types of some entries of a list of fields. -/
def fieldParts (entries : List Document) : List Document :=
  entries.flatMap fun entry => ((entry.get? "type").map parts).getD []

/-- A dictionary that a type can speak of: one of its own parts, or one of the earlier parts, by name. -/
def Source (known own : List Document) (dict : Document) : Prop :=
  dict ∈ own ∨ dict ∈ known ∧ ∃ s, ownName? dict = some s ∧ .text s ∈ own

/-! ## Descriptors and defined types -/

/-- What a dictionary says about the symbols of an enum: they are the texts that it lists, each once, in the
order in which they come first. -/
def DeclaresSymbols (dict : Document) (symbols : List String) : Prop :=
  dict.get? "type" = some (.text "enum") ∧ ∃ texts : List String, texts ≠ [] ∧
    dict.get? "symbols" = some (.list (texts.map .text)) ∧ (∀ s, s ∈ symbols ↔ s ∈ texts) ∧
    symbols.Pairwise fun a b => texts.idxOf a < texts.idxOf b

theorem DeclaresSymbols.ne_nil {dict : Document} {symbols : List String}
    (h : DeclaresSymbols dict symbols) : symbols ≠ [] := by
  obtain ⟨-, texts, htexts, -, hmem, -⟩ := h
  obtain ⟨s, hs⟩ := List.exists_mem_of_ne_nil texts htexts
  exact List.ne_nil_of_mem ((hmem s).mpr hs)

theorem DeclaresSymbols.nodup {dict : Document} {symbols : List String}
    (h : DeclaresSymbols dict symbols) : symbols.Nodup := by
  obtain ⟨-, texts, -, -, -, horder⟩ := h
  exact horder.imp fun hlt heq => absurd (heq ▸ hlt) (Nat.lt_irrefl _)

/-- What is true of a descriptor of a field whose enums come from some dictionaries. -/
structure Proper (source : Document → Prop) (field : String) (m : Descriptor) : Prop where
  name : m.name = field
  bare : m.kind ≠ .enum → m.symbols = []
  declared : m.kind = .enum → m.symbols ≠ [] → ∃ dict, source dict ∧ DeclaresSymbols dict m.symbols
  distinct : m.symbols.Nodup
  closed : m.members ≠ [] → m.kind = .union
  nullable : m.nullable = true ↔ ∃ x ∈ m.members, x.kind = .null

/-- What is true of a type that may be given a name. An enum among them has symbols. -/
structure Definable (source : Document → Prop) (x : Descriptor) : Prop where
  members : x.members = []
  nullable : x.nullable = false
  bare : x.kind ≠ .enum → x.symbols = []
  declared : x.kind = .enum → ∃ dict, source dict ∧ DeclaresSymbols dict x.symbols

/-- What the defined types are once some parts have been read: each comes from a part of its name. -/
def Known (known : List Document) (named : NamedTypes) : Prop :=
  ∀ s x, Ledger.get? named s = some x →
    Definable (fun dict => dict ∈ known ∧ ownName? dict = some s) x

section Rules

variable {known : List Document} {field : String} {source more : Document → Prop}

theorem Proper.mono {m : Descriptor} (h : Proper source field m)
    (hmore : ∀ dict, source dict → more dict) : Proper more field m := by
  refine ⟨h.name, h.bare, fun hkind hs => ?_, h.distinct, h.closed, h.nullable⟩
  obtain ⟨dict, hdict, hdeclares⟩ := h.declared hkind hs
  exact ⟨dict, hmore dict hdict, hdeclares⟩

theorem Definable.mono {x : Descriptor} (h : Definable source x)
    (hmore : ∀ dict, source dict → more dict) : Definable more x := by
  refine ⟨h.members, h.nullable, h.bare, fun hkind => ?_⟩
  obtain ⟨dict, hdict, hdeclares⟩ := h.declared hkind
  exact ⟨dict, hmore dict hdict, hdeclares⟩

theorem Known.append {named : NamedTypes} (h : Known known named) (next : List Document) :
    Known (known ++ next) named :=
  fun s x hx => (h s x hx).mono fun _ hdict => ⟨List.mem_append_left next hdict.1, hdict.2⟩

/-- The name of a type is not what makes it fit. -/
theorem Definable.rename {x : Descriptor} (h : Definable source x) :
    Definable source ⟨field, x.kind, x.symbols, x.members, x.nullable⟩ :=
  ⟨h.members, h.nullable, h.bare, h.declared⟩

/-- A type that may be given a name is a proper field. -/
theorem Definable.proper {x : Descriptor} (h : Definable source x) : Proper source x.name x := by
  refine ⟨rfl, h.bare, fun hkind _ => h.declared hkind, ?_, fun hm => absurd h.members hm, ?_⟩
  · by_cases hkind : x.kind = .enum
    · obtain ⟨dict, -, hdeclares⟩ := h.declared hkind
      exact hdeclares.nodup
    · rw [h.bare hkind]
      exact List.nodup_nil
  · rw [h.members, h.nullable]
    exact ⟨fun h => absurd h Bool.false_ne_true, fun ⟨_, hx, _⟩ => absurd hx List.not_mem_nil⟩

/-- A type that may be given a name is no enum without symbols. -/
theorem Definable.not_isEmptyEnum {x : Descriptor} (h : Definable source x) : ¬x.IsEmptyEnum := by
  rintro ⟨hkind, hsymbols⟩
  obtain ⟨dict, -, hdeclares⟩ := h.declared hkind
  exact hdeclares.ne_nil hsymbols

theorem proper_plain (kind : Kind) : Proper source field (.plain field kind) :=
  ⟨rfl, fun _ => rfl, fun _ hs => absurd rfl hs, List.nodup_nil, fun hm => absurd rfl hm,
    ⟨fun h => absurd h Bool.false_ne_true, fun ⟨_, hx, _⟩ => absurd hx List.not_mem_nil⟩⟩

/-- A union offers null when one of its members is null. -/
theorem proper_union (ms : List Descriptor) : Proper source field (.union field ms) := by
  refine ⟨rfl, fun _ => rfl, nofun, List.nodup_nil, fun _ => rfl, ?_⟩
  simp only [Descriptor.union, List.any_eq_true, beq_iff_eq]

theorem texts?_eq_some : ∀ {items : List Document} {l : List String}, texts? items = some l →
    items = l.map .text
  | [], _, h => by
    cases h
    rfl
  | d :: rest, _, h => by
    obtain ⟨s, hs, h⟩ := Option.bind_eq_some_iff.mp h
    obtain ⟨l, hl, rfl⟩ := Option.map_eq_some_iff.mp h
    rw [Document.text?_eq_some.mp hs, texts?_eq_some hl, List.map_cons]

/-- Only the name `enum` stands for enums. -/
theorem eq_enum_of_ofName? {type : Leaf}
    (h : (Document.atom type).text?.bind Kind.ofName? = some .enum) : type = .text "enum" := by
  obtain ⟨s, hs, hkind⟩ := Option.bind_eq_some_iff.mp h
  have hname : Kind.enum.name = s := Kind.name_of_ofName? hkind
  obtain rfl : "enum" = s := hname
  exact Document.atom.inj (Document.text?_eq_some.mp hs)

/-- What a dictionary describes may be given a name. -/
theorem definable_of_describe {dict : Document} {type : Leaf} {d : Descriptor}
    (hget : (dict.get? "type").getD (.value .null) = .atom type)
    (h : describe field dict type = .ok d) : Definable (· = dict) d ∧ d.name = field := by
  rcases describe_ok h with ⟨items, s, rest, rfl, hitems, htexts, rfl⟩ | ⟨kind, hne, hkind, rfl⟩
  · refine ⟨⟨rfl, rfl, fun hkind => absurd rfl hkind, fun _ => ⟨dict, rfl, ?_, ?_⟩⟩, rfl⟩
    · cases htype : dict.get? "type" with
      | none =>
        rw [htype] at hget
        cases hget
      | some x =>
        rw [htype] at hget
        exact congrArg some hget
    · exact ⟨s :: rest, nofun, by rw [hitems, texts?_eq_some htexts], fun _ => mem_firsts,
        firsts_pairwise _⟩
  · refine ⟨⟨rfl, rfl, fun _ => rfl, fun henum => ?_⟩, rfl⟩
    obtain rfl : kind = .enum := henum
    exact absurd (eq_enum_of_ofName? hkind) hne

/-- A leaf that names a defined type is its name. -/
theorem find?_eq_some {named : NamedTypes} {type : Leaf} {x : Descriptor}
    (h : named.find? type = some x) : ∃ s, type = .text s ∧ Ledger.get? named s = some x := by
  unfold NamedTypes.find? at h
  split at h
  · exact ⟨_, rfl, h⟩
  · cases h

theorem Known.find? {named : NamedTypes} (h : Known known named) {type : Leaf} {x : Descriptor}
    (hx : named.find? type = some x) : Definable (Source known [.atom type]) x := by
  obtain ⟨s, rfl, hs⟩ := find?_eq_some hx
  exact (h s x hs).mono fun _ hdict => .inr ⟨hdict.1, s, hdict.2, List.mem_singleton_self _⟩

/-- A dictionary that is read may define one more name. -/
theorem Known.define {named : NamedTypes} (h : Known known named) {dict : Document} {d : Descriptor}
    (hd : Definable (· = dict) d) : Known (known ++ [dict]) (named.define dict d) := by
  unfold NamedTypes.define
  cases hown : ownName? dict with
  | none => exact h.append _
  | some name =>
    intro s x hx
    rw [Ledger.get?_set] at hx
    split at hx
    · rename_i heq
      cases hx
      refine hd.mono fun _ hdict => ?_
      rw [hdict, ← heq]
      exact ⟨List.mem_append_right _ (List.mem_singleton_self _), hown⟩
    · exact h.append _ s x hx

end Rules

mutual

/-- **Reading a type makes proper descriptors**, and the types that it defines have what a field needs. -/
theorem TypeRead.proper {field : String} : ∀ {known : List Document} {type : Document}
    {named named' : NamedTypes} {d : Descriptor}, TypeRead field type named d named' →
      Known known named → (∀ m, m.Within d → Proper (Source known (parts type)) field m) ∧
        Known (known ++ parts type) named'
  | known, _, _, _, d, .name h, hn => by
    refine ⟨fun m hm => ?_, hn.append _⟩
    rcases nameType_ok h with ⟨x, hx, rfl⟩ | ⟨kind, -, -, rfl⟩
    · rw [hm.eq_of_members (hn.find? hx).members]
      exact (hn.find? hx).rename.proper
    · rw [hm.eq_of_members rfl]
      exact proper_plain kind
  | known, _, _, _, _, .union h, hn => by
    obtain ⟨hms, hn'⟩ := h.proper hn
    refine ⟨fun m hm => ?_, hn'⟩
    rcases Descriptor.within_union.mp hm with rfl | ⟨x, hx, hm⟩
    · exact proper_union _
    · exact hms x hx m hm
  | known, _, _, _, _, .inner hget hpart h, hn => by
    rw [parts_inner hget hpart]
    exact h.proper hn
  | known, _, _, _, d, .dict hget h, hn => by
    rw [parts, partsOfEntries_leaf hget]
    obtain ⟨hd, rfl⟩ := definable_of_describe hget h
    refine ⟨fun m hm => ?_, hn.define hd⟩
    rw [hm.eq_of_members hd.members]
    exact hd.proper.mono fun _ hdict => .inl (hdict ▸ List.mem_singleton_self _)

theorem MembersRead.proper {field : String} : ∀ {known items : List Document}
    {named named' : NamedTypes} {ms : List Descriptor}, MembersRead field items named ms named' →
      Known known named →
        (∀ x ∈ ms, ∀ m, m.Within x → Proper (Source known (partsOfItems items)) field m) ∧
          Known (known ++ partsOfItems items) named'
  | known, _, _, _, _, .nil, hn => by
    rw [partsOfItems, List.append_nil]
    exact ⟨fun x hx => absurd hx List.not_mem_nil, hn⟩
  | known, _, _, _, _, .cons h hrest, hn => by
    obtain ⟨hm, hn₁⟩ := h.proper hn
    obtain ⟨hms, hn'⟩ := hrest.proper hn₁
    rw [partsOfItems, ← List.append_assoc]
    refine ⟨fun x hx m hwithin => ?_, hn'⟩
    rcases List.mem_cons.mp hx with rfl | hx
    · refine (hm m hwithin).mono fun dict hdict => ?_
      rcases hdict with hown | ⟨hknown, s, hs, hmem⟩
      · exact .inl (List.mem_append_left _ hown)
      · exact .inr ⟨hknown, s, hs, List.mem_append_left _ hmem⟩
    · refine (hms x hx m hwithin).mono fun dict hdict => ?_
      rcases hdict with hown | ⟨hknown, s, hs, hmem⟩
      · exact .inl (List.mem_append_right _ hown)
      · rcases List.mem_append.mp hknown with hknown | hfirst
        · exact .inr ⟨hknown, s, hs, List.mem_append_right _ hmem⟩
        · exact .inl (List.mem_append_left _ hfirst)

end

/-! ## Names that are defined -/

theorem get?_define_eq_none {named : NamedTypes} {dict : Document} {d : Descriptor} {s : String} :
    Ledger.get? (named.define dict d) s = none ↔ Ledger.get? named s = none ∧ ownName? dict ≠ some s := by
  unfold NamedTypes.define
  cases ownName? dict with
  | none => exact (and_iff_left nofun).symm
  | some name =>
    rw [Ledger.get?_set]
    by_cases hname : name = s
    · rw [if_pos hname, hname]
      exact ⟨nofun, fun h => absurd rfl h.2⟩
    · rw [if_neg hname]
      exact (and_iff_left fun h => hname (Option.some.inj h)).symm

mutual

/-- **The names that a type defines are those of its parts.** -/
theorem TypeRead.get?_eq_none {field s : String} : ∀ {type : Document} {named named' : NamedTypes} {d : Descriptor},
    TypeRead field type named d named' →
      (Ledger.get? named' s = none ↔ Ledger.get? named s = none ∧ ∀ x ∈ parts type, ownName? x ≠ some s)
  | _, _, _, _, .name _ => by
    rw [parts, List.forall_mem_singleton]
    exact (and_iff_left nofun).symm
  | _, _, _, _, .union h => h.get?_eq_none
  | _, _, _, _, .inner hget hpart h => by
    rw [parts_inner hget hpart]
    exact h.get?_eq_none
  | _, _, _, _, .dict hget _ => by
    rw [parts, partsOfEntries_leaf hget, List.forall_mem_singleton]
    exact get?_define_eq_none

theorem MembersRead.get?_eq_none {field s : String} : ∀ {items : List Document} {named named' : NamedTypes}
    {ms : List Descriptor}, MembersRead field items named ms named' →
      (Ledger.get? named' s = none ↔
        Ledger.get? named s = none ∧ ∀ x ∈ partsOfItems items, ownName? x ≠ some s)
  | _, _, _, _, .nil => (and_iff_left fun _ h => absurd h List.not_mem_nil).symm
  | _, _, _, _, .cons h hrest => by
    rw [partsOfItems, List.forall_mem_append, hrest.get?_eq_none, h.get?_eq_none, and_assoc]

end

/-! ## The name of the kind itself -/

/-- No dictionary among some parts has the name `enum`. -/
def Nameless (l : List Document) : Prop := ∀ x ∈ l, ownName? x ≠ some "enum"

/-- Among some parts the name `enum` stands before any dictionary that has it, so that it is no defined
type's. -/
def BareEnum (l : List Document) : Prop :=
  ∃ before after, l = before ++ .text "enum" :: after ∧ Nameless before

theorem nameless_append {a b : List Document} : Nameless (a ++ b) ↔ Nameless a ∧ Nameless b :=
  List.forall_mem_append

theorem not_bareEnum_nil : ¬BareEnum [] := by
  rintro ⟨before, after, h, -⟩
  exact List.append_ne_nil_of_right_ne_nil before (List.cons_ne_nil _ _) h.symm

theorem bareEnum_cons {x : Document} {l : List Document} :
    BareEnum (x :: l) ↔ x = .text "enum" ∨ ownName? x ≠ some "enum" ∧ BareEnum l := by
  constructor
  · rintro ⟨before, after, h, hbefore⟩
    cases before with
    | nil => exact .inl (List.cons.inj h).1
    | cons y before =>
      obtain ⟨rfl, rfl⟩ := List.cons.inj h
      obtain ⟨hx, hbefore⟩ := List.forall_mem_cons.mp hbefore
      exact .inr ⟨hx, before, after, rfl, hbefore⟩
  · rintro (rfl | ⟨hx, before, after, rfl, hbefore⟩)
    · exact ⟨[], l, rfl, fun _ h => absurd h List.not_mem_nil⟩
    · exact ⟨x :: before, after, rfl, List.forall_mem_cons.mpr ⟨hx, hbefore⟩⟩

theorem bareEnum_append {a b : List Document} :
    BareEnum (a ++ b) ↔ BareEnum a ∨ Nameless a ∧ BareEnum b := by
  induction a with
  | nil => simp [not_bareEnum_nil, Nameless]
  | cons x a ih =>
    simp only [List.cons_append, bareEnum_cons, ih, Nameless, List.forall_mem_cons, and_or_left, and_assoc,
      or_assoc]

/-- A leaf is a bare `enum` if it is that name. -/
theorem bareEnum_leaf {type : Leaf} : BareEnum [.atom type] ↔ type = .text "enum" := by
  rw [bareEnum_cons, Document.atom.injEq, or_iff_left fun h => not_bareEnum_nil h.2]

/-- No type is defined under the name `enum`. -/
def Unnamed (named : NamedTypes) : Prop := Ledger.get? named "enum" = none

/-- A leaf reads as an enum without symbols if it is the name `enum` and no type has this name. -/
theorem isEmptyEnum_of_nameType {field : String} {type : Leaf} {known : List Document}
    {named : NamedTypes} {d : Descriptor} (h : nameType field type named = .ok d)
    (hn : Known known named) : d.IsEmptyEnum ↔ Unnamed named ∧ type = .text "enum" := by
  rcases nameType_ok h with ⟨x, hx, rfl⟩ | ⟨kind, hnone, hkind, rfl⟩
  · refine iff_of_false (hn.find? hx).rename.not_isEmptyEnum ?_
    rintro ⟨hfree, rfl⟩
    cases hx.symm.trans hfree
  · constructor
    · rintro ⟨henum, -⟩
      obtain rfl : kind = .enum := henum
      obtain rfl := eq_enum_of_ofName? hkind
      exact ⟨hnone, rfl⟩
    · rintro ⟨-, rfl⟩
      cases hkind
      exact ⟨rfl, rfl⟩

mutual

/-- **Reading a type makes an enum without symbols for a bare `enum`** and for nothing else. -/
theorem TypeRead.bare {field : String} : ∀ {known : List Document} {type : Document}
    {named named' : NamedTypes} {d : Descriptor}, TypeRead field type named d named' →
      Known known named →
        (d.LacksSymbols ↔ Unnamed named ∧ BareEnum (parts type))
  | known, _, _, _, d, .name h, hn => by
    have hmembers : d.members = [] := by
      rcases nameType_ok h with ⟨x, hx, rfl⟩ | ⟨kind, -, -, rfl⟩
      · exact (hn.find? hx).members
      · rfl
    rw [parts, bareEnum_leaf, ← isEmptyEnum_of_nameType h hn]
    refine ⟨?_, fun hd => ⟨d, .refl d, hd⟩⟩
    rintro ⟨m, hm, hempty⟩
    rwa [hm.eq_of_members hmembers] at hempty
  | known, _, _, _, _, .union h, hn => by
    refine Iff.trans ⟨?_, ?_⟩ (h.bare hn)
    · rintro ⟨m, hm, hempty⟩
      rcases Descriptor.within_union.mp hm with rfl | ⟨x, hx, hm⟩
      · cases hempty.1
      · exact ⟨x, hx, m, hm, hempty⟩
    · rintro ⟨x, hx, m, hm, hempty⟩
      exact ⟨m, .member hx hm, hempty⟩
  | known, _, _, _, _, .inner hget hpart h, hn => by
    rw [parts_inner hget hpart]
    exact h.bare hn
  | known, _, _, _, d, .dict hget h, hn => by
    rw [parts, partsOfEntries_leaf hget]
    obtain ⟨hd, rfl⟩ := definable_of_describe hget h
    refine iff_of_false ?_ ?_
    · rintro ⟨m, hm, hempty⟩
      rw [hm.eq_of_members hd.members] at hempty
      exact hd.not_isEmptyEnum hempty
    · rintro ⟨-, hbare⟩
      rcases bareEnum_cons.mp hbare with hdict | ⟨-, hnil⟩
      · cases hdict
      · exact not_bareEnum_nil hnil

theorem MembersRead.bare {field : String} : ∀ {known items : List Document}
    {named named' : NamedTypes} {ms : List Descriptor}, MembersRead field items named ms named' →
      Known known named →
        ((∃ x ∈ ms, x.LacksSymbols) ↔ Unnamed named ∧ BareEnum (partsOfItems items))
  | known, _, _, _, _, .nil, hn => by
    simp [partsOfItems, not_bareEnum_nil]
  | known, _, _, _, _, .cons h hrest, hn => by
    have hn₁ := h.get?_eq_none (s := "enum")
    simp only [List.mem_cons, exists_eq_or_imp, partsOfItems, bareEnum_append, h.bare hn,
      hrest.bare (h.proper hn).2, Unnamed, Nameless, hn₁, and_or_left, and_assoc]

end

/-! ## Fields -/

/-- What a loader holds once some entries have been read. -/
structure Sound (entries : List Document) (l : Loader) : Prop where
  fields : ∀ f ∈ l.fields, ∃ before entry after type, entries = before ++ entry :: after ∧
    ownName? entry = some f.name ∧ entry.get? "type" = some type ∧
    ∀ m, m.Within f → Proper (Source (fieldParts before) (parts type)) f.name m
  known : Known (fieldParts entries) l.named
  bare : (∃ f ∈ l.fields, f.LacksSymbols) ↔ BareEnum (fieldParts entries)
  unnamed : Unnamed l.named ↔ Nameless (fieldParts entries)

theorem fieldParts_append_singleton (entries : List Document) {entry type : Document}
    (h : entry.get? "type" = some type) :
    fieldParts (entries ++ [entry]) = fieldParts entries ++ parts type := by
  rw [fieldParts, List.flatMap_append, List.flatMap_singleton, h]
  rfl

theorem Sound.opened (d : Document) : Sound [] (Loader.opened d) where
  fields := fun f hf => absurd hf List.not_mem_nil
  known := fun s x hx => by cases hx
  bare := iff_of_false (fun ⟨f, hf, _⟩ => absurd hf List.not_mem_nil) not_bareEnum_nil
  unnamed := iff_of_true rfl fun x hx => absurd hx List.not_mem_nil

/-- One more field. -/
theorem Sound.push {entries : List Document} {l : Loader} (hl : Sound entries l) {entry : Document}
    {d : Descriptor} {named : NamedTypes}
    (h : (readField l.names entry).run l.named = (.ok d, named)) :
    Sound (entries ++ [entry]) (l.push d named) := by
  obtain ⟨hname, -, type, hget, hread⟩ := readField_ok h
  obtain ⟨hproper, hknown⟩ := hread.proper hl.known
  have hbare := hread.bare hl.known
  constructor
  · intro f hf
    rcases List.mem_append.mp hf with hf | hf
    · obtain ⟨before, x, after, type, rfl, hrest⟩ := hl.fields f hf
      exact ⟨before, x, after ++ [entry], type, by simp, hrest⟩
    · obtain rfl := List.mem_singleton.mp hf
      exact ⟨entries, entry, [], type, rfl, ownName?_of_fieldName hname, hget, hproper⟩
  · rw [fieldParts_append_singleton entries hget]
    exact hknown
  · rw [fieldParts_append_singleton entries hget, bareEnum_append, ← hl.bare, ← hl.unnamed, ← hbare]
    show (∃ f ∈ l.fields ++ [d], _) ↔ _
    simp only [List.mem_append, List.mem_singleton, or_and_right, exists_or, exists_eq_left]
  · rw [fieldParts_append_singleton entries hget, nameless_append, ← hl.unnamed]
    exact hread.get?_eq_none

/-- Any number of further fields. -/
theorem Sound.readFields : ∀ {entries next : List Document} {l m : Loader}, Sound entries l →
    l.readFields next = (m, none) → Sound (entries ++ next) m
  | entries, [], _, _, hl, h => by
    cases h
    rwa [List.append_nil]
  | entries, entry :: rest, l, m, hl, h => by
    simp only [Loader.readFields] at h
    split at h
    · cases h
    · rename_i d named hread
      have hrest := (hl.push hread).readFields h
      rwa [List.append_assoc] at hrest

/-- **What the descriptors of a loaded schema are.** Every field comes from an entry of its name. What
lies within it at any depth carries this name. It has members only if it is a union, and offers null exactly
if one of them is null. It has symbols only if it is an enum; they are those that a dictionary of the
field's own type declares, or one of an earlier field that the type names, each once and in the order in
which they come first. An enum has no symbols exactly if the schema says `enum` for a type by itself, before it
defines a type of this name. -/
theorem descriptors_of_load {l : Loader} {d : Document} (h : (l.load d).2 = none) :
    ∃ entries, Declares d entries ∧
      (∀ f ∈ (l.load d).1.fields, ∃ before entry after type,
        entries = before ++ entry :: after ∧ ownName? entry = some f.name ∧
        entry.get? "type" = some type ∧
        ∀ m, m.Within f → Proper (Source (fieldParts before) (parts type)) f.name m) ∧
      ((∃ f ∈ (l.load d).1.fields, f.LacksSymbols) ↔ BareEnum (fieldParts entries)) := by
  obtain ⟨-, entries, hentries, -⟩ := names_of_load h
  rw [load_of_recordFields hentries] at h ⊢
  have hsound := (Sound.opened d).readFields (Prod.ext rfl h)
  exact ⟨entries, recordFields_eq_ok.mp hentries, hsound.fields, hsound.bare⟩

/-- A record of a colour, of a colour that may be missing, and of a bare enum. -/
def shadeDocument : Document :=
  Loader.just [
    .dict [(.text "name", .text "colour"), (.text "type", .dict [(.text "type", .text "enum"),
      (.text "name", .text "Colour"),
      (.text "symbols", .list [.text "RED", .text "BLUE", .text "RED"])])],
    .dict [(.text "name", .text "shade"), (.text "type", .list [.text "null", .text "Colour"])],
    .dict [(.text "name", .text "mark"), (.text "type", .text "enum")]]

/-- The bare enum is there, and has no symbols. -/
theorem descriptors_of_load_shade :
    (Loader.load {} shadeDocument).2 = none ∧
      ∃ f ∈ (Loader.load {} shadeDocument).1.fields, f.LacksSymbols := by
  refine ⟨rfl, ?_⟩
  obtain ⟨entries, hentries, -, hbare⟩ := descriptors_of_load (l := {}) (d := shadeDocument) rfl
  obtain rfl := Document.list.inj (Option.some.inj hentries.2)
  exact hbare.mpr ⟨_ :: _ :: _ :: [], [], rfl, by unfold Nameless; decide⟩

end Schema

end RecordForge
