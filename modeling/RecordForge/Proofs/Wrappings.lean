import RecordForge.Proofs.Inlining

/-!
# Types in dictionaries

A dictionary with nothing but a type in it is that type again. Around a list or another dictionary this is so
whatever they are, and around a name it is so for the names of kinds. A dictionary does not look for the types that
are defined by name, and an enum in one has to have symbols.

* `wrap`: a type in a dictionary.
* `run_wrap_atom`, `run_wrap_text`: what a wrapped leaf is read as.
* `Wrapped`: a type with dictionaries around types within it, at any depth.
* `Unshadowed`, `Unshadowing`: no type has the name of a kind, nor is one given it.
* `Wrapped.run_eq`: a type is read as it is without these dictionaries.
* **`wrapped_type_read`**: for which types that are read a dictionary changes nothing, and for which it does.
-/

namespace RecordForge

namespace Schema

/-- A type in a dictionary. -/
def wrap (type : Document) : Document := .dict [(.text "type", type)]

section

variable {field : String} {named : NamedTypes}

/-! ## One dictionary -/

theorem get?_wrap (type : Document) : (wrap type).get? "type" = some type := rfl

/-- A dictionary around a list or a dictionary is read as these. -/
theorem readType_inner {dict type : Document} (hget : dict.get? "type" = some type) (hpart : ∀ l, type ≠ .atom l) :
    readType field dict = readType field type := by
  cases dict with
  | dict entries =>
    rw [readType]
    exact readEntry_inner hpart hget
  | atom l => cases hget
  | list items => cases hget

/-- A dictionary around a leaf describes a type that has no name. -/
theorem run_wrap_atom {l : Leaf} (hl : ∀ b, l ≠ .again b) (named : NamedTypes) :
    (readType field (wrap (.atom l))).run named = (describe field (wrap (.atom l)) l, named) := by
  have hread : readType field (wrap (.atom l)) = readDict field (wrap (.atom l)) l := by
    rw [wrap, readType]
    exact readEntry_leaf hl rfl
  rw [hread, readDict, run_bind, run_liftM]
  cases describe field (wrap (.atom l)) l with
  | error e => rfl
  | ok d => rfl

/-- A dictionary around a name looks for a kind, and has no symbols for an enum. -/
theorem run_wrap_text (s : String) (named : NamedTypes) :
    (readType field (wrap (.text s))).run named =
      (if s = "enum" then .error (.schema (.noSymbols field))
        else (readKind field (.text s)).map (Descriptor.plain field), named) := by
  rw [run_wrap_atom (by simp), describe]
  by_cases hs : s = "enum"
  · subst hs
    rfl
  · rw [if_neg hs, if_neg (by simpa using hs)]

theorem readKind_of_some (field : String) {s : String} {kind : Kind} (h : Kind.ofName? s = some kind) :
    readKind field (.text s) = .ok kind := by
  simp only [readKind, Document.text?, Option.bind_some, h]

theorem readKind_of_none (field : String) {s : String} (h : Kind.ofName? s = none) :
    readKind field (.text s) = .error (.schema (.unknownType field (.text s))) := by
  simp only [readKind, Document.text?, Option.bind_some, h]

/-- A name in a dictionary is read as the kind of this name, if it is read. -/
theorem run_wrap_text_ok {s : String} {d : Descriptor} :
    (readType field (wrap (.text s))).run named = (.ok d, named) ↔
      s ≠ "enum" ∧ ∃ kind, Kind.ofName? s = some kind ∧ d = .plain field kind := by
  rw [run_wrap_text]
  by_cases hs : s = "enum"
  · rw [if_pos hs]
    exact iff_of_false nofun fun h => h.1 hs
  · rw [if_neg hs]
    cases hkind : Kind.ofName? s with
    | none =>
      rw [readKind_of_none field hkind]
      exact iff_of_false nofun nofun
    | some kind =>
      rw [readKind_of_some field hkind]
      constructor
      · intro h
        obtain ⟨hd, -⟩ := Prod.mk.inj h
        exact ⟨hs, kind, rfl, (Except.ok.inj hd).symm⟩
      · rintro ⟨-, _, hsame, rfl⟩
        rw [← Option.some.inj hsame]
        rfl

/-! ## Dictionaries at any depth -/

/-- A leaf that is the name of a kind other than enums. -/
def NamesKind (l : Leaf) : Prop := ∃ kind : Kind, kind ≠ .enum ∧ l = .text kind.name

mutual

/-- A type, and the same type with dictionaries around it or around types within it. Of the leaves only the names
of kinds have them. -/
inductive Wrapped : Document → Document → Prop
  | same {type : Document} : Wrapped type type
  | around {type type' : Document} (hleaf : ∀ l, type = .atom l → NamesKind l) (h : Wrapped type type') :
      Wrapped type (wrap type')
  | union {items items' : List Document} (h : WrappedItems items items') : Wrapped (.list items) (.list items')
  | inner {dict type type' : Document} (hget : dict.get? "type" = some type) (hpart : ∀ l, type ≠ .atom l)
      (h : Wrapped type type') : Wrapped dict (dict.set "type" type')

/-- Several types, and the same types with such dictionaries. -/
inductive WrappedItems : List Document → List Document → Prop
  | nil : WrappedItems [] []
  | cons {item item' : Document} {rest rest' : List Document} (h : Wrapped item item')
      (hrest : WrappedItems rest rest') : WrappedItems (item :: rest) (item' :: rest')

end

/-- No type is defined under the name of a kind. -/
def Unshadowed (named : NamedTypes) : Prop := ∀ kind : Kind, Ledger.get? named kind.name = none

/-- No dictionary among some parts has the name of a kind. -/
def Unshadowing (l : List Document) : Prop := ∀ x ∈ l, ∀ kind : Kind, ownName? x ≠ some kind.name

/-- Reading a type gives no type the name of a kind, unless it says so. -/
theorem Unshadowed.after {type : Document} {named' : NamedTypes} {d : Descriptor} (hnamed : Unshadowed named)
    (hparts : Unshadowing (parts type)) (h : TypeRead field type named d named') : Unshadowed named' :=
  fun kind => h.get?_eq_none.mpr ⟨hnamed kind, fun x hx => hparts x hx kind⟩

/-- Only a leaf is a leaf in dictionaries, and has none of them. -/
theorem Wrapped.eq_of_atom {type : Document} {l : Leaf} (h : Wrapped type (.atom l)) : type = .atom l := by
  generalize ht : Document.atom l = type' at h
  cases h with
  | same => rfl
  | around => cases ht
  | union => cases ht
  | inner hget =>
    cases type with
    | dict entries => cases ht
    | atom l => cases hget
    | list items => cases hget

/-- The name of a kind is read as the kind, in a dictionary and alone. -/
theorem run_wrap_kind {l : Leaf} (hl : NamesKind l) (hnamed : Unshadowed named) :
    (readType field (wrap (.atom l))).run named = (readType field (.atom l)).run named := by
  obtain ⟨kind, hkind, rfl⟩ := hl
  have hne : kind.name ≠ "enum" := by
    intro h
    have hof := Kind.ofName?_name kind
    rw [h] at hof
    exact hkind (Option.some.inj hof).symm
  have hread := readKind_of_some field (Kind.ofName?_name kind)
  have hfind : named.find? (.text kind.name) = none := hnamed kind
  rw [run_wrap_text, if_neg hne, hread, readType, run_readName, nameType, hfind, hread]
  intro b h
  cases h

/-- A step that does the same leaves the same for the steps after it. -/
theorem run_bind_congr {S α β : Type} {x y : ExceptT Failure (StateM S) α}
    {f g : α → ExceptT Failure (StateM S) β} {s : S} (hx : x.run s = y.run s)
    (hf : ∀ a t, y.run s = (.ok a, t) → (f a).run t = (g a).run t) : (x >>= f).run s = (y >>= g).run s := by
  rw [run_bind, run_bind, hx]
  split
  · rename_i a t h
    exact hf a t h
  · rfl

mutual

/-- **Dictionaries around types change nothing**, neither what is read nor the names that are defined. -/
theorem Wrapped.run_eq : ∀ {type type' : Document}, Wrapped type type' → ∀ {named : NamedTypes},
    Unshadowed named → Unshadowing (parts type) → (readType field type').run named = (readType field type).run named
  | _, _, .same, _, _, _ => rfl
  | type, _, @Wrapped.around _ type' hleaf h, named, hnamed, hparts => by
    have ih := h.run_eq hnamed hparts
    by_cases hatom : ∃ l, type' = .atom l
    · obtain ⟨l, rfl⟩ := hatom
      obtain rfl := h.eq_of_atom
      exact run_wrap_kind (hleaf l rfl) hnamed
    · rw [readType_inner (get?_wrap type') fun l hl => hatom ⟨l, hl⟩]
      exact ih
  | _, _, .union h, named, hnamed, hparts => by
    rw [readType, readType]
    exact run_bind_congr (h.run_eq hnamed hparts) fun _ _ _ => rfl
  | _, _, @Wrapped.inner _ type type' hget hpart h, named, hnamed, hparts => by
    have hset := Document.get?_set hget type' "type"
    rw [if_pos rfl] at hset
    rw [parts_inner hget hpart] at hparts
    rw [readType_inner hget hpart, readType_inner hset]
    · exact h.run_eq hnamed hparts
    · rintro l rfl
      exact hpart l h.eq_of_atom

theorem WrappedItems.run_eq : ∀ {items items' : List Document}, WrappedItems items items' →
    ∀ {named : NamedTypes}, Unshadowed named → Unshadowing (partsOfItems items) →
      (readMembers field items').run named = (readMembers field items).run named
  | _, _, .nil, _, _, _ => rfl
  | _, _, .cons h hrest, named, hnamed, hparts => by
    rw [partsOfItems] at hparts
    obtain ⟨hfirst, hparts⟩ := List.forall_mem_append.mp hparts
    rw [readMembers, readMembers]
    refine run_bind_congr (h.run_eq hnamed hfirst) fun m named₁ hm => ?_
    refine run_bind_congr (hrest.run_eq (hnamed.after hfirst (typeRead_of_run hm)) hparts) fun _ _ _ => rfl

end

/-- A leaf that is read is a text, and defines nothing. -/
theorem atom_of_run {l : Leaf} {d : Descriptor} {named' : NamedTypes}
    (h : (readType field (.atom l)).run named = (.ok d, named')) : (∃ s, l = .text s) ∧ named' = named := by
  cases typeRead_of_run h with
  | inner hget => cases hget
  | name hname =>
    refine ⟨?_, rfl⟩
    rcases nameType_ok hname with ⟨x, hx, -⟩ | ⟨kind, -, hkind, -⟩
    · obtain ⟨s, hs, -⟩ := find?_eq_some hx
      exact ⟨s, hs⟩
    · obtain ⟨s, hs, -⟩ := Option.bind_eq_some_iff.mp hkind
      exact ⟨s, Document.atom.inj (Document.text?_eq_some.mp hs)⟩

/-- **Where a dictionary around a type changes nothing.** A type that is read is read in a dictionary with the same
result, if it is no leaf, or the name of a kind other than enums that stands for this kind. A defined name that is no
kind's is unknown there. With dictionaries around any types within it, at any depth, a type is read with the same
result as long as no type has the name of a kind, and of the leaves only names of kinds other than enums have them. -/
theorem wrapped_type_read {type : Document} {d : Descriptor} {named' : NamedTypes}
    (h : (readType field type).run named = (.ok d, named')) :
    ((readType field (wrap type)).run named = (.ok d, named') ↔
        ∀ s, type = .text s → s ≠ "enum" ∧ ∃ kind, Kind.ofName? s = some kind ∧ d = .plain field kind) ∧
      (∀ s, type = .text s → s ≠ "enum" → Kind.ofName? s = none →
        (readType field (wrap type)).run named = (.error (.schema (.unknownType field (.text s))), named)) ∧
      ∀ type', Wrapped type type' → Unshadowed named → Unshadowing (parts type) →
        (readType field type').run named = (.ok d, named') := by
  refine ⟨?_, ?_, fun type' hwrapped hnamed hparts => (hwrapped.run_eq hnamed hparts).trans h⟩
  · cases type with
    | atom l =>
      obtain ⟨⟨s, rfl⟩, rfl⟩ := atom_of_run h
      rw [run_wrap_text_ok]
      constructor
      · intro hs t ht
        cases ht
        exact hs
      · exact fun hs => hs s rfl
    | list items =>
      rw [readType_inner (get?_wrap _) (list_ne_atom items)]
      exact iff_of_true h nofun
    | dict entries =>
      rw [readType_inner (get?_wrap _) (dict_ne_atom entries)]
      exact iff_of_true h nofun
  · rintro s rfl hs hkind
    rw [run_wrap_text, if_neg hs, readKind_of_none field hkind]
    rfl

end

/-- An enum of colours that has a name. -/
def colourEnum : Document :=
  .dict [(.text "type", .text "enum"), (.text "name", .text "Colour"), (.text "symbols", .list [.text "RED"])]

/-- A union of null and this enum may stand in dictionaries, with dictionaries around both. The name of the enum, once
it is defined, may not. -/
theorem wrapped_type_read_colour :
    (readType "b" (wrap (.list [wrap (.text "null"), wrap (wrap colourEnum)]))).run [] =
        (readType "b" (.list [.text "null", colourEnum])).run [] ∧
      (readType "b" (wrap (.text "Colour"))).run [("Colour", ⟨"a", .enum, ["RED"], [], false⟩)] =
        (.error (.schema (.unknownType "b" (.text "Colour"))), [("Colour", ⟨"a", .enum, ["RED"], [], false⟩)]) := by
  have hwrapped : Wrapped (.list [.text "null", colourEnum])
      (wrap (.list [wrap (.text "null"), wrap (wrap colourEnum)])) := by
    refine .around nofun (.union (.cons (.around ?_ .same) (.cons (.around nofun (.around nofun .same)) .nil)))
    intro l hl
    exact ⟨.null, by decide, (Document.atom.inj hl).symm⟩
  have hparts : Unshadowing (parts (.list [.text "null", colourEnum])) := by
    intro x hx kind
    have hmem : x = .text "null" ∨ x = colourEnum := by simpa [parts, partsOfItems, partsOfEntries, colourEnum] using hx
    rcases hmem with rfl | rfl <;> cases kind <;> decide
  have hunion : (readType "b" (.list [.text "null", colourEnum])).run [] =
      (.ok (.union "b" [.plain "b" .null, ⟨"b", .enum, ["RED"], [], false⟩]),
        [("Colour", ⟨"b", .enum, ["RED"], [], false⟩)]) := rfl
  have hname : (readType "b" (.text "Colour")).run [("Colour", ⟨"a", .enum, ["RED"], [], false⟩)] =
      (.ok ⟨"b", .enum, ["RED"], [], false⟩, [("Colour", ⟨"a", .enum, ["RED"], [], false⟩)]) := rfl
  obtain ⟨-, -, hany⟩ := wrapped_type_read hunion
  obtain ⟨-, hunknown, -⟩ := wrapped_type_read hname
  exact ⟨hany _ hwrapped (fun _ => rfl) hparts, hunknown "Colour" rfl (by decide) (by decide)⟩

end Schema

end RecordForge
