import RecordForge.Proofs.Loading
import RecordForge.Schema.File

/-!
# Loaders that have been used before

One loader may be given many documents, some of which it refuses, and some of which it gives up halfway.
What it holds afterwards, defined names among it, does not reach into the next document.

* `Declares`: a document that is a record with a list of fields.
* `Load`, `Loader.take`, `Loader.after`: what a loader is given, and what it is after a history of that.
* `Loader.readFields_labelled`: reading fields does not depend on the document around them.
* `Loader.names_after_nodup`: the fields of a loader are named differently, whatever it was given.
* **`load_after_history`**: what a document comes to is what it comes to in a new loader.
-/

namespace RecordForge.Schema

/-! ## Documents -/

/-- A document is a record with a list of fields. -/
def Declares (d : Document) (entries : List Document) : Prop :=
  d.get? "type" = some (.text "record") ∧ d.get? "fields" = some (.list entries)

theorem recordFields_eq_ok {d : Document} {entries : List Document} :
    recordFields d = .ok entries ↔ Declares d entries := by
  have hrecord : (d.get? "type").bind Document.text? = some "record" ↔
      d.get? "type" = some (.text "record") := by
    simp only [Option.bind_eq_some_iff, Document.text?_eq_some, exists_eq_right]
  unfold recordFields Declares
  by_cases htype : d.get? "type" = some (.text "record")
  · rw [if_pos (hrecord.mpr htype)]
    constructor
    · intro h
      split at h
      · rename_i items hitems
        cases h
        exact ⟨htype, hitems⟩
      · cases h
    · rintro ⟨-, hfields⟩
      rw [hfields]
  · rw [if_neg fun h => htype (hrecord.mp h)]
    exact ⟨nofun, fun h => absurd h.1 htype⟩

/-- Whatever is no record with a list of fields is refused as a schema. -/
theorem recordFields_eq_error {d : Document} (h : ∀ entries, ¬Declares d entries) :
    ∃ fault, recordFields d = .error (.schema fault) := by
  cases hd : recordFields d with
  | ok entries => exact absurd (recordFields_eq_ok.mp hd) (h entries)
  | error e =>
    unfold recordFields at hd
    split at hd
    · split at hd
      · cases hd
      · cases hd
        exact ⟨.noFields, rfl⟩
    · cases hd
      exact ⟨.notRecord, rfl⟩

theorem ownName?_of_fieldName {entry : Document} {name : String} (h : fieldName entry = .ok name) :
    ownName? entry = some name := by
  unfold fieldName at h
  split at h
  · rename_i own hown
    cases h
    exact hown
  · cases h

/-- Entries whose names are read are the entries of fields of these names. -/
theorem names_of_mapM : ∀ {entries : List Document} {names : List String},
    entries.mapM fieldName = .ok names → entries.map ownName? = names.map some
  | [], _, h => by
    cases h
    rfl
  | entry :: rest, _, h => by
    rw [List.mapM_cons] at h
    obtain ⟨name, hname, h⟩ := bind_eq_ok.mp h
    obtain ⟨names, hnames, h⟩ := bind_eq_ok.mp h
    cases h
    rw [List.map_cons, List.map_cons, names_of_mapM hnames, ownName?_of_fieldName hname]

/-! ## Histories -/

/-- What a loader is given. -/
inductive Load where
  | document (d : Document)
  | file (disk : Disk) (path : Path)

namespace Loader

/-- The loader after what it is given, and the failure if there is one. -/
def take (l : Loader) : Load → Loader × Option Failure
  | .document d => l.load d
  | .file disk path => l.loadFile disk path

/-- A loader after all that it was given, whether it could be used or not. -/
def after (history : List Load) : Loader := history.foldl (fun l x => (l.take x).1) {}

theorem names_load_nodup {l : Loader} (hl : l.names.Nodup) (d : Document) :
    (l.load d).1.names.Nodup := by
  cases hd : recordFields d with
  | error e =>
    unfold load
    rw [hd]
    exact hl
  | ok entries =>
    rw [load_of_recordFields hd]
    exact readFields_names_nodup List.nodup_nil

theorem names_take_nodup {l : Loader} (hl : l.names.Nodup) (x : Load) : (l.take x).1.names.Nodup := by
  cases x with
  | document d => exact names_load_nodup hl d
  | file disk path =>
    show (l.loadFile disk path).1.names.Nodup
    unfold loadFile
    cases documentOf disk path with
    | error e => exact hl
    | ok d => exact names_load_nodup hl d

/-- The fields of a loader are named differently, whatever it was given. -/
theorem names_after_nodup (history : List Load) : (after history).names.Nodup := by
  unfold after
  have hstart : (({} : Loader).names).Nodup := List.nodup_nil
  generalize ({} : Loader) = l at hstart ⊢
  induction history generalizing l with
  | nil => exact hstart
  | cons x rest ih => exact ih _ (names_take_nodup hstart x)

/-! ## Failures halfway -/

/-- A loader under the name and the document of another one. -/
def labelled (l other : Loader) : Loader := { l with name := other.name, document := other.document }

/-- Reading fields does not depend on the document around them. -/
theorem readFields_labelled (other : Loader) : ∀ (entries : List Document) (l : Loader),
    (l.labelled other).readFields entries =
      ((l.readFields entries).1.labelled other, (l.readFields entries).2)
  | [], l => rfl
  | entry :: rest, l => by
    have hread : (readField (l.labelled other).names entry).run (l.labelled other).named =
        (readField l.names entry).run l.named := rfl
    simp only [readFields, hread]
    rcases (readField l.names entry).run l.named with ⟨e | d, named⟩
    · rfl
    · exact readFields_labelled other rest (l.push d named)

/-- Two documents with the same fields come to the same fields and the same failure. -/
theorem load_of_same_fields {d d' : Document} {entries : List Document} (hd : Declares d entries)
    (hd' : Declares d' entries) (l : Loader) :
    (l.load d').1.fields = (l.load d).1.fields ∧ (l.load d').2 = (l.load d).2 := by
  have hlabel : (opened d).labelled (opened d') = opened d' := rfl
  rw [load_of_recordFields (recordFields_eq_ok.mpr hd),
    load_of_recordFields (recordFields_eq_ok.mpr hd'), ← hlabel, readFields_labelled]
  exact ⟨rfl, rfl⟩

/-- A document with just some entries. -/
def just (entries : List Document) : Document :=
  .dict [(.text "type", .text "record"), (.text "fields", .list entries)]

theorem declares_just (entries : List Document) : Declares (just entries) entries := ⟨rfl, rfl⟩

/-- **A failure halfway is that of one field.** The loader holds what a document of only the fields before
it comes to, and with this field as the last one such a document fails likewise. -/
theorem load_halfway {d : Document} {entries : List Document} {e : Failure} {l : Loader}
    (hd : Declares d entries) (h : (l.load d).2 = some e) :
    ∃ before entry rest, entries = before ++ entry :: rest ∧
      (l.load (just before)).2 = none ∧
      (l.load (just before)).1.fields = (l.load d).1.fields ∧
      (l.load (just (before ++ [entry]))).2 = some e := by
  have hrun := load_of_recordFields (recordFields_eq_ok.mpr hd) l
  rw [hrun] at h ⊢
  rcases readFields_cases entries (opened d) with hnone | ⟨before, entry, rest, m, e', named, rfl, hm, hx, hall⟩
  · rw [hnone] at h
    cases h
  · rw [hall] at h ⊢
    cases h
    have hlabel (xs : List Document) : (opened d).labelled (opened (just xs)) = opened (just xs) := rfl
    have hjust (xs : List Document) : l.load (just xs) = (opened (just xs)).readFields xs :=
      load_of_recordFields (recordFields_eq_ok.mpr (declares_just xs)) l
    have hlast : (opened d).readFields (before ++ [entry]) =
        ({ m with named := named }, some e) := by
      rw [readFields_append hm]
      simp only [readFields, hx]
    refine ⟨before, entry, rest, rfl, ?_, ?_, ?_⟩
    · rw [hjust, ← hlabel, readFields_labelled, hm]
    · rw [hjust, ← hlabel, readFields_labelled, hm]
      rfl
    · rw [hjust, ← hlabel, readFields_labelled, hlast]

end Loader

/-! ## What a document comes to -/

/-- **What a document comes to does not depend on what was loaded before.** Take a loader after any
history of documents and files, used up, refused or given up halfway. The fields that it holds are named
differently. A document that is no record with a list of fields, and a file without a document, leave it as
it is. Any other document comes to what it comes to in a new loader, with the same failure if there is
one. If there is none, the fields are those that the document declares, by name and in order. If there is
one, it is that of a field: the loader holds the fields before this one, as a document of these alone
describes them, and a document that ends with this one fails likewise. -/
theorem load_after_history (history : List Load) :
    (Loader.after history).names.Nodup ∧
    (∀ d, (∀ entries, ¬Declares d entries) →
      ∃ fault, (Loader.after history).load d = (Loader.after history, some (.schema fault))) ∧
    (∀ disk path e, documentOf disk path = .error e →
      (Loader.after history).loadFile disk path = (Loader.after history, some e)) ∧
    (∀ disk path d, documentOf disk path = .ok d →
      (Loader.after history).loadFile disk path = (Loader.after history).load d) ∧
    ∀ d entries, Declares d entries →
      (Loader.after history).load d = Loader.load {} d ∧
      ((Loader.load {} d).2 = none →
        (Loader.load {} d).1.names.map some = entries.map ownName?) ∧
      ∀ e, (Loader.load {} d).2 = some e → ∃ before entry rest,
        entries = before ++ entry :: rest ∧
        (Loader.load {} d).1.names.map some = before.map ownName? ∧
        ∀ d', (Declares d' before →
            (Loader.load {} d').2 = none ∧
              (Loader.load {} d').1.fields = (Loader.load {} d).1.fields) ∧
          (Declares d' (before ++ [entry]) → (Loader.load {} d').2 = some e) := by
  have hnamed {d : Document} {entries : List Document} (hd : Declares d entries)
      (h : (Loader.load {} d).2 = none) : (Loader.load {} d).1.names.map some = entries.map ownName? := by
    obtain ⟨-, entries', hentries, hnames⟩ := names_of_load h
    obtain rfl : entries' = entries :=
      Except.ok.inj (hentries.symm.trans (recordFields_eq_ok.mpr hd))
    exact (names_of_mapM hnames).symm
  refine ⟨Loader.names_after_nodup history, fun d hd => ?_, fun disk path e h => ?_,
    fun disk path d h => ?_, fun d entries hd => ⟨?_, hnamed hd, fun e h => ?_⟩⟩
  · obtain ⟨fault, hfault⟩ := recordFields_eq_error hd
    exact ⟨fault, by rw [Loader.load, hfault]⟩
  · rw [Loader.loadFile, h]
  · rw [Loader.loadFile, h]
  · have hfields := recordFields_eq_ok.mpr hd
    rw [load_of_recordFields hfields, load_of_recordFields hfields]
  · obtain ⟨before, entry, rest, hsplit, hnone, hfields, hlast⟩ := Loader.load_halfway hd h
    refine ⟨before, entry, rest, hsplit, ?_, fun d' => ⟨fun hd' => ?_, fun hd' => ?_⟩⟩
    · rw [Loader.names, ← hfields]
      exact hnamed (Loader.declares_just before) hnone
    · obtain ⟨hsame, hsame'⟩ := Loader.load_of_same_fields (Loader.declares_just before) hd' {}
      exact ⟨hsame'.trans hnone, hsame.trans hfields⟩
    · exact (Loader.load_of_same_fields (Loader.declares_just _) hd' {}).2.trans hlast

/-- A record of a colour, which it defines by name. -/
def paintDocument : Document :=
  .dict [(.text "type", .text "record"), (.text "name", .text "Paint"),
    (.text "fields", .list [
      .dict [(.text "name", .text "colour"), (.text "type", .dict [(.text "type", .text "enum"),
        (.text "name", .text "Colour"),
        (.text "symbols", .list [.text "RED", .text "BLUE"])])],
      .dict [(.text "name", .text "shade"), (.text "type", .text "Shade")]])]

/-- The entries of a record of a number and a colour, which it does not define. -/
def signEntries : List Document :=
  [.dict [(.text "name", .text "width"), (.text "type", .text "int")],
    .dict [(.text "name", .text "colour"), (.text "type", .text "Colour")]]

/-- After a document that was given up halfway the colour that it defined is not known any more. -/
theorem load_after_history_sign :
    Ledger.keys (Loader.after [.document paintDocument]).named = ["Colour"] ∧
    ((Loader.after [.document paintDocument]).load (Loader.just signEntries)).2 =
      some (.schema (.unknownType "colour" (.text "Colour"))) ∧
    ∃ before entry rest, signEntries = before ++ entry :: rest ∧
      ["width"].map some = before.map ownName? := by
  obtain ⟨-, -, -, -, h⟩ := load_after_history [.document paintDocument]
  obtain ⟨hsame, -, hfailed⟩ := h _ _ (Loader.declares_just signEntries)
  obtain ⟨before, entry, rest, hsplit, hnames, -⟩ := hfailed _ rfl
  exact ⟨rfl, by rw [hsame]; rfl, before, entry, rest, hsplit, hnames⟩

end RecordForge.Schema
