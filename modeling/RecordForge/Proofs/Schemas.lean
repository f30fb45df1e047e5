import Mathlib.Data.List.Forall2
import RecordForge.Avro.Schema
import RecordForge.Proofs.Loading

/-!
# Schemas of Avro files

The same document is read twice: once for the fields that are generated, once for the schema of an
Avro file. Both readings go through the list of fields in order.

* `AvroType.ReadAs`: an entry of a list of fields that was read as a field.
* `fields_of_read`: the fields of a record come of the entries of its list, one by one.
* `realsAreBare_of_document`: only fields of bare floating-point types make their values numbers.
* **`names_of_document`**: both readings find fields of the same names in the same order.
-/

namespace RecordForge

namespace AvroType

/-! ## Fields -/

/-- An entry of the list of fields of a record that was read as a field. -/
def ReadAs (entry : Document) (f : AvroField AvroType) : Prop :=
  ∃ height inner space names names',
    readField (read height inner) space entry names = .ok (f, names')

/-- A field that was read has the name and the type of its entry. -/
theorem parts_of_readAs {entry : Document} {f : AvroField AvroType} (h : ReadAs entry f) :
    ∃ name type height space names names', entry.get? "name" = some name ∧
      entry.get? "type" = some type ∧ f.name = name.text?.getD name.render ∧
      f.isReal = isBareReal type ∧ read height space type names = .ok (f.type, names') := by
  obtain ⟨height, inner, space, names, names', h⟩ := h
  unfold readField at h
  dsimp only at h
  split at h
  · cases h
  · split at h
    · rename_i name type hname htype
      obtain ⟨⟨t, names''⟩, hread, h⟩ := bind_eq_ok.mp h
      dsimp only at h
      split at h
      · cases h
      · cases h
        exact ⟨name, type, height, inner, names, _, hname, htype, rfl, rfl, hread⟩
    · cases h

/-- If the values of a field are made numbers, its type is a bare floating-point one. -/
def RealsAreBare (f : AvroField AvroType) : Prop :=
  f.isReal = true → ∃ p : Primitive, f.type = primitive p ∧ p.isReal = true

theorem realsAreBare_of_readAs {entry : Document} {f : AvroField AvroType} (h : ReadAs entry f) :
    RealsAreBare f := by
  intro hf
  obtain ⟨-, type, height, space, names, names', -, -, -, hreal, hread⟩ := parts_of_readAs h
  rw [hf, isBareReal] at hreal
  cases ht : type.text? with
  | none => rw [ht] at hreal; cases hreal
  | some s =>
    rw [ht] at hreal
    cases hp : Primitive.ofName? s with
    | none => rw [Option.bind_some, hp] at hreal; cases hreal
    | some p =>
      rw [Option.bind_some, hp] at hreal
      refine ⟨p, ?_, hreal.symm⟩
      unfold Document.text? at ht
      split at ht
      · cases ht
        cases height with
        | zero => cases hread
        | succ n =>
          simp only [read, resolve, hp] at hread
          exact (congrArg Prod.fst (Except.ok.inj hread)).symm
      · cases ht

theorem forall₂_of_readFields {height : Nat} {inner space : String} :
    ∀ {entries : List Document} {names names' : Names} {fields : List (AvroField AvroType)},
      readFields (read height inner) space entries names = .ok (fields, names') →
        List.Forall₂ ReadAs entries fields
  | [], _, _, _, h => by
    cases h
    exact .nil
  | entry :: rest, names, _, _, h => by
    obtain ⟨⟨f, names₁⟩, hf, h⟩ := bind_eq_ok.mp h
    obtain ⟨⟨fs, names₂⟩, hfs, h⟩ := bind_eq_ok.mp h
    cases h
    exact .cons ⟨height, inner, space, names, names₁, hf⟩ (forall₂_of_readFields hfs)

/-! ## Records -/

theorem fields_of_readRecord {height : Nat} {space : String} {dict : Document}
    {names names' : Names} {t : AvroType} (h : readRecord (read height) space dict names = .ok (t, names')) :
    ∃ entries fields, fieldsOf dict = .ok entries ∧ t = record fields ∧
      List.Forall₂ ReadAs entries fields := by
  obtain ⟨⟨inner, name⟩, -, h⟩ := bind_eq_ok.mp h
  obtain ⟨declared, -, h⟩ := bind_eq_ok.mp h
  obtain ⟨entries, hentries, h⟩ := bind_eq_ok.mp h
  obtain ⟨⟨fields, names₁⟩, hfields, h⟩ := bind_eq_ok.mp h
  cases h
  exact ⟨entries, fields, hentries, rfl, forall₂_of_readFields hfields⟩

theorem fields_of_readKind {height : Nat} {space kind : String} {dict : Document}
    {names names' : Names} {fields : List (AvroField AvroType)}
    (h : readKind (read height) space kind dict names = .ok (record fields, names')) :
    ∃ entries, fieldsOf dict = .ok entries ∧ List.Forall₂ ReadAs entries fields := by
  have hrecord (h : readRecord (read height) space dict names = .ok (record fields, names')) :
      ∃ entries, fieldsOf dict = .ok entries ∧ List.Forall₂ ReadAs entries fields := by
    obtain ⟨entries, fs, hentries, ht, hfs⟩ := fields_of_readRecord h
    cases ht
    exact ⟨entries, hentries, hfs⟩
  unfold readKind at h
  split at h
  · obtain ⟨⟨t, names₁⟩, -, h⟩ := map_eq_ok.mp h
    cases h
  · obtain ⟨⟨t, names₁⟩, -, h⟩ := map_eq_ok.mp h
    cases h
  · obtain ⟨⟨inner, name⟩, -, h⟩ := bind_eq_ok.mp h
    obtain ⟨declared, -, h⟩ := bind_eq_ok.mp h
    obtain ⟨symbols, -, h⟩ := bind_eq_ok.mp h
    obtain ⟨names₁, -, h⟩ := bind_eq_ok.mp h
    cases h
  · obtain ⟨⟨inner, name⟩, -, h⟩ := bind_eq_ok.mp h
    dsimp only at h
    split at h
    · obtain ⟨names₁, -, h⟩ := bind_eq_ok.mp h
      cases h
    · obtain ⟨declared, -, h⟩ := bind_eq_ok.mp h
      cases h
  · exact hrecord h
  · exact hrecord h
  · split at h
    · split at h <;> cases h
    · cases h
    · cases h

theorem resolve_ne_record {space name : String} {fields : List (AvroField AvroType)} {names : Names} :
    resolve space name names ≠ .ok (record fields) := by
  unfold resolve
  split
  · nofun
  · split
    · nofun
    · rename_i t ht hn
      exact fun h => ht fields (Except.ok.inj h)
    · nofun

/-- The fields of a record that is read come of the entries of its list, one by one. -/
theorem fields_of_read {height : Nat} {space : String} {d : Document} {names names' : Names}
    {fields : List (AvroField AvroType)}
    (h : read height space d names = .ok (record fields, names')) :
    ∃ entries, fieldsOf d = .ok entries ∧ List.Forall₂ ReadAs entries fields := by
  cases height with
  | zero => cases h
  | succ n =>
    simp only [read] at h
    split at h
    · obtain ⟨t, ht, h⟩ := map_eq_ok.mp h
      cases h
      exact absurd ht resolve_ne_record
    · cases h
    · cases h
    · cases h
    · obtain ⟨⟨ts, names₁⟩, -, h⟩ := map_eq_ok.mp h
      cases h
    · split at h
      · cases h
      · obtain ⟨-, -, h⟩ := bind_eq_ok.mp h
        exact fields_of_readKind h
      · cases h
      · cases h

end AvroType

/-- The type of a schema is the one that its document describes. -/
theorem AvroSchema.read_of_document {d : Document} {s : AvroSchema}
    (h : AvroSchema.ofDocument d = .ok s) :
    ∃ names, AvroType.read d.height "" d [] = .ok (s.type, names) := by
  obtain ⟨⟨t, names⟩, hread, h⟩ := map_eq_ok.mp h
  have ht : s.type = t := by
    rw [← h]
    dsimp only
    split <;> rfl
  exact ⟨names, by rw [ht, hread]⟩

/-- The fields of a schema's record come of the entries of its document, one by one. -/
theorem AvroSchema.fields_of_document {d : Document} {s : AvroSchema}
    {fields : List (AvroField AvroType)} (h : AvroSchema.ofDocument d = .ok s)
    (hs : s.type = .record fields) :
    ∃ entries, AvroType.fieldsOf d = .ok entries ∧ List.Forall₂ AvroType.ReadAs entries fields := by
  obtain ⟨names, hread⟩ := AvroSchema.read_of_document h
  rw [hs] at hread
  exact AvroType.fields_of_read hread

/-- A document that is loaded as a record is a record of an Avro schema, too. -/
theorem AvroSchema.record_of_document {d : Document} {s : AvroSchema} {entries : List Document}
    (h : AvroSchema.ofDocument d = .ok s) (hd : Schema.recordFields d = .ok entries) :
    ∃ fields, s.type = .record fields := by
  obtain ⟨names, hread⟩ := AvroSchema.read_of_document h
  have htype : d.get? "type" = some (.text "record") := by
    unfold Schema.recordFields at hd
    split at hd
    · rename_i hrecord
      cases hg : d.get? "type" with
      | none =>
        rw [hg] at hrecord
        cases hrecord
      | some x =>
        rw [hg, Option.bind_some] at hrecord
        unfold Document.text? at hrecord
        split at hrecord
        · cases hrecord
          rfl
        · cases hrecord
    · cases hd
  cases d with
  | atom l => cases htype
  | list items => cases htype
  | dict es =>
    simp only [Document.height, AvroType.read, htype] at hread
    obtain ⟨-, -, hread⟩ := bind_eq_ok.mp hread
    obtain ⟨entries, fields, -, hfields, -⟩ := AvroType.fields_of_readRecord hread
    exact ⟨fields, hfields⟩

/-- **Both readings of a document find fields of the same names in the same order.** -/
theorem AvroSchema.names_of_document {d : Document} {s : AvroSchema}
    {fields : List (AvroField AvroType)} {entries : List Document} {names : List String}
    (h : AvroSchema.ofDocument d = .ok s) (hs : s.type = .record fields)
    (hd : Schema.recordFields d = .ok entries) (hn : entries.mapM Schema.fieldName = .ok names) :
    fields.map (·.name) = names := by
  obtain ⟨entries', hentries', hfields⟩ := AvroSchema.fields_of_document h hs
  have hsame : entries' = entries := by
    unfold Schema.recordFields at hd
    unfold AvroType.fieldsOf at hentries'
    split at hd
    · split at hd
      · rename_i items hitems
        rw [hitems] at hentries'
        cases hd
        cases hentries'
        rfl
      · cases hd
    · cases hd
  subst hsame
  clear hd hentries' hs
  induction hfields generalizing names with
  | nil =>
    cases hn
    rfl
  | cons hentry _ ih =>
    rw [List.mapM_cons] at hn
    obtain ⟨name, hname, hn⟩ := bind_eq_ok.mp hn
    obtain ⟨rest, hrest, hn⟩ := bind_eq_ok.mp hn
    cases hn
    obtain ⟨d, -, -, -, -, -, hget, -, hf, -, -⟩ := AvroType.parts_of_readAs hentry
    rw [Schema.fieldName, Schema.ownName?, hget, Option.bind_some] at hname
    split at hname
    · rename_i text htext
      cases hname
      rw [List.map_cons, ih hrest, hf, htext]
      rfl
    · cases hname

theorem AvroSchema.realsAreBare_of_document {d : Document} {s : AvroSchema}
    {fields : List (AvroField AvroType)} (h : AvroSchema.ofDocument d = .ok s)
    (hs : s.type = .record fields) : ∀ f ∈ fields, AvroType.RealsAreBare f := by
  obtain ⟨entries, -, hread⟩ := AvroSchema.fields_of_document h hs
  clear hs
  induction hread with
  | nil => exact fun f hf => absurd hf List.not_mem_nil
  | cons hentry _ ih =>
    intro f hf
    rcases List.mem_cons.mp hf with rfl | hf
    · exact AvroType.realsAreBare_of_readAs hentry
    · exact ih f hf

end RecordForge
