import RecordForge.Proofs.Strategies
import RecordForge.Schema.Loader

/-!
# Reading types and fields

Reading a type goes through its document by one of four rules. `TypeRead` says them once: what a reading
that succeeds has come to, and which names are defined after it.

* `TypeRead`, `MembersRead`: the rules.
* `typeRead_of_run`, `run_of_typeRead`: a type is read exactly if it is read by them.
* `readFields_append`, `readFields_cases`: a list of fields is read in order, up to the first failure.
* `names_of_load`: the fields of a loaded schema are named as its entries say.
* **`names_nodup_of_load`**: the fields of a loaded schema are named differently.
-/

namespace RecordForge.Schema

/-! ## Types -/

/-- The names after a dictionary that describes a type: its own name is one of them. -/
def NamedTypes.define (named : NamedTypes) (dict : Document) (d : Descriptor) : NamedTypes :=
  match ownName? dict with
  | some name => Ledger.set named name d
  | none => named

theorem run_define (dict : Document) (d : Descriptor) (named : NamedTypes) :
    (define dict d).run named = (.ok (), named.define dict d) := by
  unfold define NamedTypes.define
  cases ownName? dict <;> rfl

/-- The descriptor that a leaf names: a defined type's, or one of a kind. -/
def nameType (field : String) (type : Leaf) (named : NamedTypes) : Except Failure Descriptor :=
  match named.find? type with
  | some d => .ok ⟨field, d.kind, d.symbols, d.members, d.nullable⟩
  | none => (readKind field (.atom type)).map (Descriptor.plain field)

theorem run_readName (field : String) (type : Leaf) (named : NamedTypes) :
    (readName field type).run named = (nameType field type named, named) := by
  have hget : (readName field type).run named = (match named.find? type with
      | some d => pure ⟨field, d.kind, d.symbols, d.members, d.nullable⟩
      | none => liftM ((readKind field (.atom type)).map (Descriptor.plain field)) :
        Reading Descriptor).run named := rfl
  rw [hget, nameType]
  cases named.find? type with
  | some d => rfl
  | none => exact run_liftM _ _

theorem readDict_ok {field : String} {dict : Document} {type : Leaf} {named named' : NamedTypes}
    {d : Descriptor} (h : (readDict field dict type).run named = (.ok d, named')) :
    describe field dict type = .ok d ∧ named' = named.define dict d := by
  obtain ⟨x, t, hx, h⟩ := run_bind_ok.mp h
  rw [run_liftM] at hx
  obtain ⟨hdescribe, rfl⟩ := Prod.mk.inj hx
  obtain ⟨u, v, hu, h⟩ := run_bind_ok.mp h
  rw [run_define] at hu
  cases hu
  cases h
  exact ⟨hdescribe, rfl⟩

theorem run_readDict {field : String} {dict : Document} {type : Leaf} {d : Descriptor}
    (h : describe field dict type = .ok d) (named : NamedTypes) :
    (readDict field dict type).run named = (.ok d, named.define dict d) := by
  refine run_bind_ok.mpr ⟨d, named, by rw [run_liftM, h], ?_⟩
  exact run_bind_ok.mpr ⟨(), named.define dict d, run_define dict d named, rfl⟩

mutual

/-- A type that is read: its document, the names before it, its descriptor, and the names after it. -/
inductive TypeRead (field : String) : Document → NamedTypes → Descriptor → NamedTypes → Prop
  /-- A leaf names a defined type or a kind. -/
  | name {type : Leaf} {named : NamedTypes} {d : Descriptor} (h : nameType field type named = .ok d) :
      TypeRead field (.atom type) named d named
  /-- A list is the union of its members. -/
  | union {items : List Document} {named named' : NamedTypes} {ms : List Descriptor}
      (h : MembersRead field items named ms named') :
      TypeRead field (.list items) named (.union field ms) named'
  /-- A dictionary around a list or a dictionary adds nothing to it. -/
  | inner {dict type : Document} {named named' : NamedTypes} {d : Descriptor}
      (hget : dict.get? "type" = some type) (hpart : ∀ l, type ≠ .atom l)
      (h : TypeRead field type named d named') : TypeRead field dict named d named'
  /-- Another dictionary describes a type, and may give it a name. -/
  | dict {entries : List (Leaf × Document)} {type : Leaf} {named : NamedTypes} {d : Descriptor}
      (hget : ((Document.dict entries).get? "type").getD (.value .null) = .atom type)
      (h : describe field (.dict entries) type = .ok d) :
      TypeRead field (.dict entries) named d (named.define (.dict entries) d)

/-- Members that are read in order, each with the names that those before it have defined. -/
inductive MembersRead (field : String) :
    List Document → NamedTypes → List Descriptor → NamedTypes → Prop
  | nil {named : NamedTypes} : MembersRead field [] named [] named
  | cons {item : Document} {rest : List Document} {named named₁ named' : NamedTypes} {m : Descriptor}
      {ms : List Descriptor} (h : TypeRead field item named m named₁)
      (hrest : MembersRead field rest named₁ ms named') :
      MembersRead field (item :: rest) named (m :: ms) named'

end

section Rules

variable {field : String}

mutual

/-- **A type that is read is read by the rules.** -/
theorem typeRead_of_run : ∀ {type : Document} {d : Descriptor} {named named' : NamedTypes},
    (readType field type).run named = (.ok d, named') → TypeRead field type named d named'
  | .atom (.again _), _, _, _, h => by cases h
  | .atom (.value _), _, _, _, h | .atom (.broken _), _, _, _, h | .atom (.other _), _, _, _, h => by
    simp only [readType, run_readName] at h
    obtain ⟨hname, rfl⟩ := Prod.mk.inj h
    exact .name hname
  | .list items, _, _, _, h => by
    obtain ⟨ms, t, hms, hd⟩ := run_bind_ok.mp h
    rw [run_pure] at hd
    cases hd
    exact .union (membersRead_of_run hms)
  | .dict entries, _, _, _, h => by
    rcases entryRead_of_run h with ⟨type, hget, hpart, htype⟩ | ⟨type, hget, hdict, rfl⟩
    · exact .inner hget hpart htype
    · exact .dict hget hdict

theorem membersRead_of_run : ∀ {items : List Document} {ms : List Descriptor}
    {named named' : NamedTypes},
      (readMembers field items).run named = (.ok ms, named') → MembersRead field items named ms named'
  | [], _, _, _, h => by
    cases h
    exact .nil
  | item :: rest, _, _, _, h => by
    obtain ⟨m, t, hm, hrest⟩ := run_bind_ok.mp h
    obtain ⟨ms, u, hms, hall⟩ := run_bind_ok.mp hrest
    rw [run_pure] at hall
    cases hall
    exact .cons (typeRead_of_run hm) (membersRead_of_run hms)

/-- The entries of a dictionary that is read lead to a type within it, or to what it describes. -/
theorem entryRead_of_run {dict : Document} : ∀ {entries : List (Leaf × Document)} {d : Descriptor}
    {named named' : NamedTypes}, (readEntry field dict entries).run named = (.ok d, named') →
      (∃ type, Ledger.get? entries (.text "type") = some type ∧ (∀ l, type ≠ .atom l) ∧
        TypeRead field type named d named') ∨
      ∃ type, (Ledger.get? entries (.text "type")).getD (.value .null) = .atom type ∧
        describe field dict type = .ok d ∧ named' = named.define dict d
  | [], _, _, _, h => .inr ⟨.value .null, rfl, readDict_ok h⟩
  | (k, .atom type) :: rest, _, _, _, h => by
    by_cases hk : k = .text "type"
    · rw [Ledger.get?, if_pos hk]
      cases type with
      | again b =>
        simp only [readEntry, if_pos hk] at h
        cases h
      | _ =>
        simp only [readEntry, if_pos hk] at h
        exact .inr ⟨_, rfl, readDict_ok h⟩
    · rw [Ledger.get?, if_neg hk]
      cases type <;>
      · simp only [readEntry, if_neg hk] at h
        exact entryRead_of_run h
  | (k, .list items) :: rest, _, _, _, h => by
    by_cases hk : k = .text "type"
    · simp only [readEntry, if_pos hk] at h
      exact .inl ⟨.list items, by rw [Ledger.get?, if_pos hk], nofun, typeRead_of_run h⟩
    · simp only [readEntry, if_neg hk] at h
      rw [Ledger.get?, if_neg hk]
      exact entryRead_of_run h
  | (k, .dict entries) :: rest, _, _, _, h => by
    by_cases hk : k = .text "type"
    · simp only [readEntry, if_pos hk] at h
      exact .inl ⟨.dict entries, by rw [Ledger.get?, if_pos hk], nofun, typeRead_of_run h⟩
    · simp only [readEntry, if_neg hk] at h
      rw [Ledger.get?, if_neg hk]
      exact entryRead_of_run h

end

/-- Only the entry `type` says how a dictionary is read. -/
theorem readEntry_cons_ne {dict d : Document} {k : Leaf} (hk : k ≠ .text "type")
    (rest : List (Leaf × Document)) :
    readEntry field dict ((k, d) :: rest) = readEntry field dict rest := by
  rcases d with (_ | _ | _) | _ | _ <;> simp only [readEntry, if_neg hk]

/-- A dictionary around a type is read by reading the type. -/
theorem readEntry_inner {dict type : Document} (hpart : ∀ l, type ≠ .atom l) :
    ∀ {entries : List (Leaf × Document)}, Ledger.get? entries (.text "type") = some type →
      readEntry field dict entries = readType field type
  | [], h => by cases h
  | (k, d) :: rest, h => by
    by_cases hk : k = .text "type"
    · rw [Ledger.get?, if_pos hk] at h
      cases h
      cases type with
      | atom l => exact absurd rfl (hpart l)
      | list items => simp only [readEntry, if_pos hk]
      | dict entries => simp only [readEntry, if_pos hk]
    · rw [Ledger.get?, if_neg hk] at h
      rw [readEntry_cons_ne hk]
      exact readEntry_inner hpart h

/-- A dictionary whose type is a leaf other than one of those around it describes a type. -/
theorem readEntry_leaf {dict : Document} {type : Leaf} (htype : ∀ b, type ≠ .again b) :
    ∀ {entries : List (Leaf × Document)},
      (Ledger.get? entries (.text "type")).getD (.value .null) = .atom type →
        readEntry field dict entries = readDict field dict type
  | [], h => by
    cases h
    rfl
  | (k, d) :: rest, h => by
    by_cases hk : k = .text "type"
    · rw [Ledger.get?, if_pos hk, Option.getD_some] at h
      subst h
      cases type with
      | again b => exact absurd rfl (htype b)
      | _ => simp only [readEntry, if_pos hk]
    · rw [Ledger.get?, if_neg hk] at h
      rw [readEntry_cons_ne hk]
      exact readEntry_leaf htype h

theorem readKind_ok {type : Document} {kind : Kind} (h : readKind field type = .ok kind) :
    type.text?.bind Kind.ofName? = some kind := by
  unfold readKind at h
  split at h
  · rename_i hkind
    cases h
    exact hkind
  · cases h

/-- A leaf names a defined type or a kind. -/
theorem nameType_ok {type : Leaf} {named : NamedTypes} {d : Descriptor} (h : nameType field type named = .ok d) :
    (∃ x, named.find? type = some x ∧ d = ⟨field, x.kind, x.symbols, x.members, x.nullable⟩) ∨
      ∃ kind, named.find? type = none ∧ (Document.atom type).text?.bind Kind.ofName? = some kind ∧
        d = .plain field kind := by
  unfold nameType at h
  cases hfind : named.find? type with
  | some x =>
    rw [hfind] at h
    cases h
    exact .inl ⟨x, rfl, rfl⟩
  | none =>
    rw [hfind] at h
    obtain ⟨kind, hkind, rfl⟩ := map_eq_ok.mp h
    exact .inr ⟨kind, rfl, readKind_ok hkind, rfl⟩

/-- A dictionary describes an enum by its symbols, or a type by its kind. -/
theorem describe_ok {dict : Document} {type : Leaf} {d : Descriptor} (h : describe field dict type = .ok d) :
    (∃ items s rest, type = .text "enum" ∧ dict.get? "symbols" = some (.list items) ∧
      texts? items = some (s :: rest) ∧ d = ⟨field, .enum, firsts (s :: rest), [], false⟩) ∨
      ∃ kind, type ≠ .text "enum" ∧ (Document.atom type).text?.bind Kind.ofName? = some kind ∧
        d = .plain field kind := by
  unfold describe at h
  by_cases htype : type = .text "enum"
  · rw [if_pos htype, readEnum] at h
    split at h
    · rename_i items hitems
      split at h
      · rename_i s rest htexts
        cases h
        exact .inl ⟨items, s, rest, htype, hitems, htexts, rfl⟩
      · cases h
    · cases h
  · rw [if_neg htype] at h
    obtain ⟨kind, hkind, rfl⟩ := map_eq_ok.mp h
    exact .inr ⟨kind, htype, readKind_ok hkind, rfl⟩

/-- A leaf with a descriptor is none of the lists and dictionaries around it. -/
theorem ne_again {type : Leaf} {kind : Kind} (h : (Document.atom type).text?.bind Kind.ofName? = some kind)
    (b : Bool) : type ≠ .again b := by
  rintro rfl
  cases h

mutual

/-- **What is read by the rules is read.** -/
theorem run_of_typeRead : ∀ {type : Document} {d : Descriptor} {named named' : NamedTypes},
    TypeRead field type named d named' → (readType field type).run named = (.ok d, named')
  | .atom (.again b), _, _, _, .name h => by
    rcases nameType_ok h with ⟨x, hx, -⟩ | ⟨kind, -, hkind, -⟩
    · cases hx
    · exact absurd rfl (ne_again hkind b)
  | .atom (.value _), _, _, _, .name h | .atom (.broken _), _, _, _, .name h
  | .atom (.other _), _, _, _, .name h => by
    simp only [readType, run_readName, h]
  | .list items, _, _, _, .union h => by
    rw [readType]
    exact run_bind_ok.mpr ⟨_, _, run_of_membersRead h, rfl⟩
  | .dict entries, _, _, _, .inner hget hpart h => by
    rw [readType, readEntry_inner hpart hget]
    exact run_of_typeRead h
  | .dict entries, _, _, _, .dict hget h => by
    rw [readType, readEntry_leaf ?_ hget]
    · exact run_readDict h _
    · rcases describe_ok h with ⟨-, -, -, rfl, -⟩ | ⟨kind, -, hkind, -⟩
      · exact nofun
      · exact ne_again hkind

theorem run_of_membersRead : ∀ {items : List Document} {ms : List Descriptor} {named named' : NamedTypes},
    MembersRead field items named ms named' → (readMembers field items).run named = (.ok ms, named')
  | _, _, _, _, .nil => rfl
  | _, _, _, _, .cons h hrest => by
    rw [readMembers]
    exact run_bind_ok.mpr ⟨_, _, run_of_typeRead h, run_bind_ok.mpr ⟨_, _, run_of_membersRead hrest, rfl⟩⟩

end

/-- The descriptor of a type carries the name of its field. -/
theorem TypeRead.name_eq : ∀ {type : Document} {named named' : NamedTypes} {d : Descriptor},
    TypeRead field type named d named' → d.name = field
  | _, _, _, _, .name h => by
    rcases nameType_ok h with ⟨x, -, rfl⟩ | ⟨kind, -, -, rfl⟩ <;> rfl
  | _, _, _, _, .union _ => rfl
  | _, _, _, _, .inner _ _ h => h.name_eq
  | _, _, _, _, .dict _ h => by
    rcases describe_ok h with ⟨items, s, rest, -, -, -, rfl⟩ | ⟨kind, -, -, rfl⟩ <;> rfl

end Rules

/-! ## Fields -/

/-- A field that is read is named as its entry says, unlike those before it, and its type is read. -/
theorem readField_ok {before : List String} {entry : Document} {named named' : NamedTypes}
    {d : Descriptor} (h : (readField before entry).run named = (.ok d, named')) :
    fieldName entry = .ok d.name ∧ d.name ∉ before ∧
      ∃ type, entry.get? "type" = some type ∧ TypeRead d.name type named d named' := by
  unfold readField at h
  obtain ⟨name, t, hname, h⟩ := run_bind_ok.mp h
  rw [run_liftM] at hname
  obtain ⟨hentry, rfl⟩ := Prod.mk.inj hname
  by_cases hn : name ∈ before
  · rw [if_pos hn] at h
    cases h
  · rw [if_neg hn] at h
    split at h
    · cases h
    · rename_i type hget
      have hread := typeRead_of_run h
      have hd := hread.name_eq
      subst hd
      exact ⟨hentry, hn, type, hget, hread⟩

/-- A field with a name of its own is read by reading its type. -/
theorem run_readField {before : List String} {entry type : Document} {named named' : NamedTypes}
    {d : Descriptor} (hname : fieldName entry = .ok d.name) (hnew : d.name ∉ before)
    (hget : entry.get? "type" = some type) (h : TypeRead d.name type named d named') :
    (readField before entry).run named = (.ok d, named') := by
  refine run_bind_ok.mpr ⟨d.name, named, by rw [run_liftM, hname], ?_⟩
  rw [if_neg hnew, hget]
  exact run_of_typeRead h

namespace Loader

/-- The loader with one more field, and the names defined after it. -/
def push (l : Loader) (d : Descriptor) (named : NamedTypes) : Loader :=
  { l with fields := l.fields ++ [d], named := named }

theorem names_push (l : Loader) (d : Descriptor) (named : NamedTypes) :
    (l.push d named).names = l.names ++ [d.name] := List.map_append

/-- Fields are read one after the other, and a failure ends it. -/
theorem readFields_append {m : Loader} {after : List Document} : ∀ {before : List Document}
    {l : Loader}, l.readFields before = (m, none) → l.readFields (before ++ after) = m.readFields after
  | [], _, h => by
    cases h
    rfl
  | entry :: rest, l, h => by
    simp only [readFields, List.cons_append] at h ⊢
    split at h
    · cases h
    · exact readFields_append h

/-- What a list of fields comes to: all of them are read, or all before the first that is not. -/
theorem readFields_cases : ∀ (entries : List Document) (l : Loader),
    (l.readFields entries).2 = none ∨
      ∃ before entry after m e named, entries = before ++ entry :: after ∧
        l.readFields before = (m, none) ∧ (readField m.names entry).run m.named = (.error e, named) ∧
        l.readFields entries = ({ m with named := named }, some e)
  | [], l => .inl rfl
  | entry :: rest, l => by
    simp only [readFields]
    rcases hread : (readField l.names entry).run l.named with ⟨e | d, named⟩
    · exact .inr ⟨[], entry, rest, l, e, named, rfl, rfl, hread, rfl⟩
    · rcases readFields_cases rest (l.push d named) with h | ⟨before, x, after, m, e, named', rfl, hm, hx, h⟩
      · exact .inl h
      · refine .inr ⟨entry :: before, x, after, m, e, named', rfl, ?_, hx, h⟩
        simp only [readFields, hread]
        exact hm

/-- Reading more fields keeps their names different. -/
theorem readFields_names_nodup : ∀ {entries : List Document} {l : Loader}, l.names.Nodup →
    (l.readFields entries).1.names.Nodup
  | [], _, hl => hl
  | entry :: rest, l, hl => by
    simp only [readFields]
    split
    · exact hl
    · rename_i d named hread
      apply readFields_names_nodup
      show (l.push d named).names.Nodup
      rw [names_push, List.nodup_append]
      refine ⟨hl, by simp, ?_⟩
      rintro a ha b hb rfl
      rw [List.mem_singleton] at hb
      exact (readField_ok hread).2.1 (hb ▸ ha)

/-- Fields that are read to the end have the names of their entries, in order. -/
theorem names_of_readFields : ∀ {entries : List Document} {l m : Loader},
    l.readFields entries = (m, none) →
      ∃ names, entries.mapM fieldName = .ok names ∧ m.names = l.names ++ names
  | [], _, _, h => by
    cases h
    exact ⟨[], rfl, (List.append_nil _).symm⟩
  | entry :: rest, l, m, h => by
    simp only [readFields] at h
    split at h
    · cases h
    · rename_i d named hread
      obtain ⟨names, hnames, hm⟩ := names_of_readFields h
      refine ⟨d.name :: names, ?_, ?_⟩
      · rw [List.mapM_cons, (readField_ok hread).1, hnames]
        rfl
      · rw [hm]
        show (l.push d named).names ++ names = _
        rw [names_push, List.append_assoc, List.singleton_append]

/-- Reading fields leaves the document. -/
theorem document_readFields : ∀ (entries : List Document) (l : Loader),
    (l.readFields entries).1.document = l.document
  | [], _ => rfl
  | entry :: rest, l => by
    simp only [readFields]
    split
    · rfl
    · exact document_readFields rest _

end Loader

/-- A loader that is about to read the fields of a document. -/
def Loader.opened (d : Document) : Loader := ⟨(d.get? "name").getD (.text ""), d, [], []⟩

/-- A record with a list of fields is loaded by reading them, whatever was loaded before. -/
theorem load_of_recordFields {d : Document} {entries : List Document}
    (h : recordFields d = .ok entries) (l : Loader) :
    l.load d = (Loader.opened d).readFields entries := by
  unfold Loader.load
  rw [h]
  rfl

/-- A document that is loaded to its end is a record, and the fields have the names of its entries. -/
theorem names_of_load {l : Loader} {d : Document} (h : (l.load d).2 = none) :
    (l.load d).1.document = d ∧ ∃ entries, recordFields d = .ok entries ∧
      entries.mapM fieldName = .ok (l.load d).1.names := by
  cases hentries : recordFields d with
  | error e =>
    unfold Loader.load at h
    rw [hentries] at h
    cases h
  | ok entries =>
    rw [load_of_recordFields hentries] at h ⊢
    obtain ⟨names, hnames, hfields⟩ := Loader.names_of_readFields (Prod.ext rfl h)
    exact ⟨Loader.document_readFields entries _, entries, rfl, by rw [hnames, hfields]; rfl⟩

/-- **The fields of a document that is loaded to its end are named differently.** -/
theorem names_nodup_of_load {l : Loader} {d : Document} (h : (l.load d).2 = none) :
    (l.load d).1.names.Nodup := by
  obtain ⟨-, entries, hentries, -⟩ := names_of_load h
  rw [load_of_recordFields hentries]
  exact Loader.readFields_names_nodup List.nodup_nil

end RecordForge.Schema
