import RecordForge.Proofs.Decoding
import RecordForge.Proofs.Tables

/-!
# What a file says of its records

Whoever reads a file is not told how it was written. Comma-separated text is read into rows, a columnar file has its
rows as they are, and the blocks of an Avro file are decoded by its schema; then there is a row for every record, in
order, and each field of it says the value that the record has there.

* `Avro.decodeBlocks`: the records of some blocks. `decodeBlocks_of_cuts`: blocks are decoded record by record.
* `Writer.Row`: a row is one of a record, column by column.
* `Writer.Tells`: what is read from a file, format by format.
* `Writer.Holds`: a file has what is written of some records, and this is what is read from it.
* **`Encodes.holds`**: what is written of records is read from it.
-/

namespace RecordForge

/-! ## Blocks -/

namespace Avro

/-- The records of a block, if it holds just as many as it says. -/
def decodeBlock (s : AvroSchema) (b : Block) : Option (List Document) :=
  match (readItems s.decoder b.count).run b.data with
  | some (ds, []) => some ds
  | _ => none

/-- The records of some blocks. -/
def decodeBlocks (s : AvroSchema) (blocks : List Block) : Option (List Document) :=
  (blocks.mapM (decodeBlock s)).map List.flatten

variable {s : AvroSchema} {P : Record → Document → Prop}

/-- Records whose bytes are decoded to documents of some kind. -/
def Decodable (s : AvroSchema) (P : Record → Document → Prop) (rs : List Record) : Prop :=
  ∀ r ∈ rs, ∃ d, Reads s.decoder (recordBytes s r) d ∧ P r d

theorem decodeBlock_blockOf {rs : List Record} (h : Decodable s P rs) :
    ∃ ds, decodeBlock s (blockOf s rs) = some ds ∧ List.Forall₂ P rs ds := by
  obtain ⟨ds, hreads, hall⟩ : ∃ ds,
      List.Forall₂ (Reads s.decoder) (rs.map (recordBytes s)) ds ∧ List.Forall₂ P rs ds := by
    induction rs with
    | nil => exact ⟨[], .nil, .nil⟩
    | cons r rest ih =>
      obtain ⟨d, hd, hP⟩ := h r List.mem_cons_self
      obtain ⟨ds, hds, hall⟩ := ih fun q hq => h q (List.mem_cons_of_mem r hq)
      exact ⟨d :: ds, .cons hd hds, .cons hP hall⟩
  refine ⟨ds, ?_, hall⟩
  have hitems := readItems_reads hreads []
  rw [List.append_nil, ← List.flatMap_def, ← hall.length_eq] at hitems
  unfold decodeBlock blockOf
  rw [hitems]

/-- **Blocks are decoded record by record**, wherever they end. -/
theorem decodeBlocks_of_cuts {rs : List Record} {blocks : List Block} (hc : Cuts s rs blocks)
    (h : Decodable s P rs) : ∃ ds, decodeBlocks s blocks = some ds ∧ List.Forall₂ P rs ds := by
  obtain ⟨chunks, rfl, rfl⟩ := hc
  unfold decodeBlocks
  induction chunks with
  | nil => exact ⟨[], rfl, .nil⟩
  | cons chunk rest ih =>
    rw [List.flatten_cons] at h ⊢
    obtain ⟨ds, hds, hall⟩ := decodeBlock_blockOf fun r hr => h r (List.mem_append_left _ hr)
    obtain ⟨more, hmore, hrest⟩ := ih fun r hr => h r (List.mem_append_right _ hr)
    obtain ⟨lists, hlists, rfl⟩ := Option.map_eq_some_iff.mp hmore
    refine ⟨ds ++ lists.flatten, ?_, List.rel_append hall hrest⟩
    rw [List.map_cons, List.mapM_cons, hds, hlists]
    rfl

end Avro

/-- A record as it was decoded: an entry for each field, with the value that was generated exactly if the
schema keeps it. -/
def AvroSchema.Recovers (s : AvroSchema) (fields : List (AvroField AvroType)) (r : Record) (d : Document) : Prop :=
  ∃ entries, d = .dict entries ∧
    List.Forall₂ (AvroType.Restored (s.kept referenceLimit) r) fields entries

/-- **What is encoded of records is recovered** from blocks of them, field by field. -/
theorem AvroSchema.recovers_of_cuts {d : Document} {s : AvroSchema} {fields : List (AvroField AvroType)}
    {rs : List Record} {blocks : List Avro.Block} (hd : AvroSchema.ofDocument d = .ok s)
    (hs : s.type = .record fields) (hthere : ∀ r ∈ rs, ∀ f ∈ fields, ∃ v, Ledger.get? r f.name = some v)
    (hencodable : Avro.Encodable s rs) (hcuts : Avro.Cuts s rs blocks) :
    ∃ decoded, Avro.decodeBlocks s blocks = some decoded ∧ List.Forall₂ (s.Recovers fields) rs decoded := by
  refine Avro.decodeBlocks_of_cuts hcuts fun r hr => ?_
  obtain ⟨bytes, hbytes⟩ := hencodable r hr
  obtain ⟨entries, hentries, hall⟩ := restores_of_encodeRecord hd hs (hthere r hr) hbytes
  refine ⟨.dict entries, ?_, entries, rfl, hall⟩
  rw [Avro.recordBytes, hbytes]
  exact hentries

/-! ## Rows -/

namespace Writer

/-- A row is one of a record: each field of it is related to the value that the record has in its column, by the kind
of the column. -/
def Row {α : Type} (w : Writer) (P : Kind → Value → α → Prop) (r : Record) (row : List α) : Prop :=
  List.Forall₂ (fun c a => ∃ k, Ledger.get? w.kinds c = some k ∧ P k (valueIn r c) a) w.columns row

variable {w : Writer} {r : Record} {rs : List Record} {c : Content}

theorem csvFields_cells :
    w.csvFields (w.cells r) = w.columns.map fun c => ((w.columnType c).text (w.cell r c)).toList := by
  rw [csvFields, cells, zip_map_self, List.map_map]
  rfl

theorem row_map {α : Type} {P : Kind → Value → α → Prop} {f : String → α} (h : ∀ c ∈ w.columns,
    ∃ k, Ledger.get? w.kinds c = some k ∧ P k (valueIn r c) (f c)) : w.Row P r (w.columns.map f) := by
  rw [Row, List.forall₂_map_right_iff, List.forall₂_same]
  exact h

/-- The values that are stored of a record are those that it has. -/
theorem stores_cells (h : w.KindsTake r) : w.Row Kind.Stores r (w.cells r) := by
  refine row_map fun c hc => ?_
  have hcell := store?_cell h hc
  obtain ⟨k, hk, ht⟩ := h c hc
  rw [columnType, hk] at hcell
  exact ⟨k, hk, ColumnType.stores_of_store? ht hcell⟩

/-- The fields that are written of a record say which values it has. -/
theorem says_fields (h : w.KindsTake r) : w.Row Kind.Says r (w.csvFields (w.cells r)) := by
  rw [csvFields_cells]
  refine row_map fun c hc => ?_
  have hcell := store?_cell h hc
  obtain ⟨k, hk, ht⟩ := h c hc
  have htype : w.columnType c = .ofKind (some k) := congrArg ColumnType.ofKind hk
  rw [htype] at hcell ⊢
  exact ⟨k, hk, ColumnType.says_text ht hcell⟩

/-! ## Files -/

/-- What is read from a file: the names of the columns once, as its first row or as its columns, and then for each of
some records, in order, a row of the fields that say what the record has in the columns. The records of an Avro file
are decoded by its schema. -/
def Tells (w : Writer) (rs : List Record) (c : Content) : Prop :=
  match w.format with
  | .csv => ∃ s rows, c = .text s ∧ Csv.read s.toList = some (w.columns.map String.toList :: rows) ∧
    List.Forall₂ (w.Row Kind.Says) rs rows
  | .parquet => ∃ p : Parquet, c = .parquet p ∧
    p.columns = (w.columns.map fun c => (c, Kind.columnar (Ledger.get? w.kinds c))) ∧
    List.Forall₂ (w.Row Kind.Stores) rs p.groups.flatten
  | .avro => ∃ blocks fields decoded, c = .avro blocks ∧ w.schema.type = .record fields ∧
    Avro.decodeBlocks w.schema blocks = some decoded ∧ List.Forall₂ (w.schema.Recovers fields) rs decoded

/-- A file holds some records: it has what is written of them, and they are what is read from it. -/
structure Holds (w : Writer) (rs : List Record) (c : Content) : Prop where
  encodes : w.Encodes rs c
  tells : w.Tells rs c

/-- Records that can be read again once they are written: the columns take their values, or else an Avro schema has
encoded all their fields. -/
structure Readable (w : Writer) (rs : List Record) : Prop where
  kinds : w.format ≠ .avro → ∀ r ∈ rs, w.KindsTake r
  schema : w.format = .avro → Avro.Encodable w.schema rs ∧ ∃ d fields, AvroSchema.ofDocument d = .ok w.schema ∧
    w.schema.type = .record fields ∧ ∀ r ∈ rs, ∀ f ∈ fields, ∃ v, Ledger.get? r f.name = some v

/-- **What is written of records is read from it.** -/
theorem Encodes.holds (h : w.Encodes rs c) (hread : w.Readable rs) : w.Holds rs c := by
  refine ⟨h, ?_⟩
  unfold Encodes at h
  unfold Tells
  cases hf : w.format with
  | csv =>
    simp only [hf] at h ⊢
    have hkinds := hread.kinds (hf ▸ by decide)
    refine ⟨_, (rs.map w.cells).map w.csvFields, h, ?_, ?_⟩
    · rw [textOf, String.toList_ofList]
      exact Csv.read_table w.dialect _
    · rw [List.map_map, List.forall₂_map_right_iff, List.forall₂_same]
      exact fun r hr => says_fields (hkinds r hr)
  | parquet =>
    simp only [hf] at h ⊢
    have hkinds := hread.kinds (hf ▸ by decide)
    obtain ⟨groups, rfl, hgroups⟩ := h
    refine ⟨_, rfl, List.map_congr_left fun c _ => congrArg (c, ·) (ColumnType.ofColumn_nil _), ?_⟩
    rw [hgroups, List.forall₂_map_right_iff, List.forall₂_same]
    exact fun r hr => stores_cells (hkinds r hr)
  | avro =>
    simp only [hf] at h ⊢
    obtain ⟨blocks, rfl, hcuts⟩ := h
    obtain ⟨hencodable, d, fields, hd, hfields, hthere⟩ := hread.schema hf
    obtain ⟨decoded, hdecoded, hall⟩ := AvroSchema.recovers_of_cuts hd hfields hthere hencodable hcuts
    exact ⟨blocks, fields, decoded, rfl, hfields, hdecoded, hall⟩

end Writer

end RecordForge
