import RecordForge.Output.Writer
import RecordForge.Proofs.Blocks
import RecordForge.Proofs.Fields

/-!
# Rows and files of records

A record that has values of the kinds of its columns makes a row, and what a write adds to a file are the
rows of its records, whatever the file holds before. How the rows of several writes lie in blocks and
groups is the only trace of the writes.

* `Writer.cells`: the row that a record makes; `storeRows_eq` and `castRows_eq` say that it is stored.
* `Writer.Encodes`: a file has what is written of some records: once the header, and then the records in order.
* **`fileAfter_encodes`**: a write adds its records to what the file of a writer has.
-/

namespace RecordForge

/-! ## Values of columns -/

namespace ColumnType

/-- A stored value fits the column of a columnar file. -/
theorem cast_of_store? {k : Kind} {v w : Value} (h : k.Takes v)
    (hw : (ofKind (some k)).store? v = some w) :
    (ParquetType.ofColumn (ofKind (some k)) []).cast w = .ok w := by
  have hfloat (x : Float) (t : ParquetType) (ht : t = .single ∨ t = .double) :
      t.cast (storeFloat x) = .ok (storeFloat x) := by
    unfold storeFloat
    rcases ht with rfl | rfl <;> split <;> rfl
  cases v with
  | null =>
    obtain rfl : w = .null := by cases k <;> exact (Option.some.inj hw).symm
    exact ParquetType.cast_null _
  | int n =>
    cases k with
    | int =>
      have hn : Word.IsInt n := h
      obtain rfl := Option.some.inj ((if_pos hn).symm.trans hw)
      exact if_pos (decide_eq_true hn)
    | long =>
      have hn : Word.IsLong n := h
      obtain rfl := Option.some.inj ((if_pos hn).symm.trans hw)
      exact if_pos (decide_eq_true hn)
    | _ => exact h.elim
  | float x =>
    cases k with
    | float =>
      obtain rfl := Option.some.inj hw
      exact hfloat _ _ (Or.inl rfl)
    | double =>
      obtain rfl := Option.some.inj hw
      exact hfloat _ _ (Or.inr rfl)
    | _ => exact h.elim
  | text s =>
    cases k with
    | string | enum =>
      obtain rfl := Option.some.inj hw
      rfl
    | _ => exact h.elim
  | bool b => cases k <;> exact h.elim

theorem infer_of_null : ∀ {vs : List Value}, (∀ v ∈ vs, v = .null) → ParquetType.infer vs = .null
  | [], _ => rfl
  | v :: rest, h => by
    obtain rfl : v = .null := h v List.mem_cons_self
    show ParquetType.infer rest = .null
    exact infer_of_null fun w hw => h w (List.mem_cons_of_mem _ hw)

theorem store?_eq_null {k : Kind} {v w : Value} (hk : ofKind (some k) = object) (h : k.Takes v)
    (hw : (ofKind (some k)).store? v = some w) : w = .null := by
  rw [hk] at hw
  cases v with
  | null => exact (Option.some.inj hw).symm
  | _ => cases k <;> first | exact h.elim | cases hk

/-- The type of a column of a columnar file does not depend on what is stored in it. -/
theorem ofColumn_of_takes {k : Kind} {vs : List Value}
    (h : ∀ w ∈ vs, ∃ v, k.Takes v ∧ (ofKind (some k)).store? v = some w) :
    ParquetType.ofColumn (ofKind (some k)) vs = ParquetType.ofColumn (ofKind (some k)) [] := by
  by_cases hk : ofKind (some k) = object
  · rw [hk]
    refine infer_of_null fun w hw => ?_
    obtain ⟨v, hv, hs⟩ := h w hw
    exact store?_eq_null hk hv hs
  · cases hc : ofKind (some k) with
    | object => exact absurd hc hk
    | _ => rfl

end ColumnType

theorem mapM_eq_pure {m : Type → Type} [Monad m] [LawfulMonad m] {α β : Type} {f : α → m β}
    {g : α → β} : ∀ {l : List α}, (∀ a ∈ l, f a = pure (g a)) → l.mapM f = pure (l.map g)
  | [], _ => by rw [List.mapM_nil, List.map_nil]
  | a :: rest, h => by
    rw [List.mapM_cons, h a List.mem_cons_self, pure_bind,
      mapM_eq_pure fun b hb => h b (List.mem_cons_of_mem a hb), pure_bind, List.map_cons]

theorem zip_map_self {α β : Type} (f : α → β) : ∀ l : List α, l.zip (l.map f) = l.map fun a => (a, f a)
  | [] => rfl
  | a :: rest => congrArg ((a, f a) :: ·) (zip_map_self f rest)

namespace Writer

/-! ## Rows -/

/-- What a table stores of a record in a column. -/
def cell (w : Writer) (r : Record) (c : String) : Value :=
  ((w.columnType c).store? (valueIn r c)).getD .null

/-- The row of a table that a record makes. -/
def cells (w : Writer) (r : Record) : List Value := w.columns.map (w.cell r)

/-- In every column a record has a value of the column's kind, or null. -/
def KindsTake (w : Writer) (r : Record) : Prop :=
  ∀ c ∈ w.columns, ∃ k, Ledger.get? w.kinds c = some k ∧ k.Takes (valueIn r c)

/-- The columns of a columnar file, whatever is stored in them. -/
def parquetTypes (w : Writer) : List (String × ParquetType) :=
  w.columns.map fun c => (c, .ofColumn (w.columnType c) [])

variable {w : Writer} {r : Record} {rs : List Record}

theorem store?_cell (h : w.KindsTake r) {c : String} (hc : c ∈ w.columns) :
    (w.columnType c).store? (valueIn r c) = some (w.cell r c) := by
  obtain ⟨k, hk, ht⟩ := h c hc
  obtain ⟨v, hv⟩ := ColumnType.store?_of_takes ht
  rw [cell, columnType, hk, hv]
  rfl

theorem cast_cell (h : w.KindsTake r) {c : String} (hc : c ∈ w.columns) :
    (ParquetType.ofColumn (w.columnType c) []).cast (w.cell r c) = .ok (w.cell r c) := by
  have hs := store?_cell h hc
  obtain ⟨k, hk, ht⟩ := h c hc
  rw [columnType, hk] at hs ⊢
  exact ColumnType.cast_of_store? ht hs

theorem storeRow?_eq (h : w.KindsTake r) : w.storeRow? r = some (w.cells r) :=
  mapM_eq_pure fun _ hc => store?_cell h hc

theorem storeRows_eq (hc : w.columns ≠ []) (h : ∀ r ∈ rs, w.KindsTake r) :
    w.storeRows rs = .ok (rs.map w.cells) := by
  have hrows : rs.mapM w.storeRow? = some (rs.map w.cells) :=
    mapM_eq_pure fun r hr => storeRow?_eq (h r hr)
  rw [storeRows, if_neg (by simpa using hc), hrows]

/-- The columns of a table of rows are the cells of the records in each column. -/
theorem columnsOf_cells : Parquet.columnsOf w.columns.length (rs.map w.cells) =
    w.columns.map fun c => rs.map fun r => w.cell r c := by
  refine List.ext_getElem (by simp [Parquet.columnsOf]) fun i h₁ h₂ => ?_
  have hi : i < w.columns.length := by simpa using h₂
  simp [Parquet.columnsOf, cells, hi]

theorem parquetColumns_eq (h : ∀ r ∈ rs, w.KindsTake r) :
    w.parquetColumns (rs.map w.cells) = w.parquetTypes := by
  rw [parquetColumns, columnsOf_cells, zip_map_self, List.map_map, parquetTypes]
  refine List.map_congr_left fun c hc => ?_
  show (c, _) = (c, _)
  rw [columnType]
  cases rs with
  | nil => rfl
  | cons r rest =>
    obtain ⟨k, hk, -⟩ := h r List.mem_cons_self c hc
    rw [hk, ColumnType.ofColumn_of_takes]
    intro v hv
    obtain ⟨q, hq, rfl⟩ := List.mem_map.mp hv
    have hs := store?_cell (h q hq) hc
    obtain ⟨k', hk', ht⟩ := h q hq c hc
    obtain rfl : k = k' := Option.some.inj (hk.symm.trans hk')
    rw [columnType, hk] at hs
    exact ⟨_, ht, hs⟩

theorem castRow_eq {p : Parquet} (hp : p.columns = w.parquetTypes) (h : w.KindsTake r) :
    p.castRow (w.cells r) = .ok (w.cells r) := by
  have hzip : p.columns.zip (w.cells r) =
      w.columns.map fun c => ((c, .ofColumn (w.columnType c) []), w.cell r c) := by
    rw [hp, parquetTypes, cells, List.zip_map']
  rw [Parquet.castRow, hzip, List.mapM_map]
  exact mapM_eq_pure fun c hc => cast_cell h hc

/-! ## Files -/

/-- The text of a file of some records: the header and their rows. -/
def textOf (w : Writer) (rs : List Record) : String :=
  String.ofList (Csv.table w.dialect (w.columns.map String.toList :: (rs.map w.cells).map w.csvFields))

/-- A file has what is written of some records: once the header, and then the records in order. -/
def Encodes (w : Writer) (rs : List Record) (c : Content) : Prop :=
  match w.format with
  | .csv => c = .text (w.textOf rs)
  | .parquet => ∃ groups, c = .parquet ⟨w.parquetTypes, groups⟩ ∧ groups.flatten = rs.map w.cells
  | .avro => ∃ blocks, c = .avro blocks ∧ Avro.Cuts w.schema rs blocks

/-- A record that can be written: an Avro schema can encode it, or else the columns take its values. -/
structure Writable (w : Writer) (r : Record) : Prop where
  kinds : w.format ≠ .avro → w.KindsTake r
  encodes : w.format = .avro → ∃ bytes, w.schema.encodeRecord r = .ok bytes

/-- What a file has to allow for records to be written. -/
structure Ready (w : Writer) : Prop where
  columns : w.format ≠ .avro → w.columns ≠ []
  distinct : w.format = .parquet → w.columns.Nodup
  schema : w.format = .avro → w.schema.obstacle = none

/-- The file of a writer that has written some records. -/
def Stands (w : Writer) (done : List Record) : Prop :=
  if w.started then ∃ c, w.file = some c ∧ w.Encodes done c else w.file = none ∧ done = []

variable {done : List Record}

theorem textOf_append : w.textOf (done ++ rs) =
    w.textOf done ++ String.ofList (Csv.table w.dialect ((rs.map w.cells).map w.csvFields)) := by
  rw [textOf, textOf, ← String.ofList_append, ← Csv.table_append, List.map_append, List.map_append,
    List.cons_append]

theorem csvAfter_encodes (hw : w.Ready) (hf : w.format = .csv) (hs : w.Stands done)
    (h : ∀ r ∈ rs, w.Writable r) :
    ∃ c, w.csvAfter rs = (some c, none) ∧ w.Encodes (done ++ rs) c := by
  have hne : w.format ≠ .avro := by rw [hf]; nofun
  have hrows := storeRows_eq (hw.columns hne) fun r hr => (h r hr).kinds hne
  refine ⟨_, by rw [csvAfter, hrows], ?_⟩
  simp only [Stands, Encodes, hf] at hs ⊢
  congr 1
  rw [csvText, csvBefore]
  split at hs
  · rename_i hst
    obtain ⟨c, hc, rfl⟩ := hs
    rw [hst, hc, textOf_append]
    rfl
  · rename_i hst
    obtain ⟨-, rfl⟩ := hs
    rw [Bool.not_eq_true] at hst
    rw [hst, List.nil_append]
    exact String.empty_append

theorem castRows_eq {p : Parquet} (hp : p.columns = w.parquetTypes) (h : ∀ r ∈ rs, w.KindsTake r) :
    p.castRows (rs.map w.cells) = .ok (rs.map w.cells) := by
  have hcast : (rs.map w.cells).mapM p.castRow = .ok (rs.map w.cells) := by
    rw [List.mapM_map]
    exact mapM_eq_pure fun r hr => castRow_eq hp (h r hr)
  rw [Parquet.castRows, hcast]
  rfl

theorem parquetAfter_encodes (hw : w.Ready) (hf : w.format = .parquet) (hs : w.Stands done)
    (h : ∀ r ∈ rs, w.Writable r) :
    ∃ c, w.parquetAfter rs = (some c, none) ∧ w.Encodes (done ++ rs) c := by
  have hne : w.format ≠ .avro := by rw [hf]; nofun
  have hkinds : ∀ r ∈ rs, w.KindsTake r := fun r hr => (h r hr).kinds hne
  have hbefore : ∃ groups, w.parquetBefore (rs.map w.cells) = ⟨w.parquetTypes, groups⟩ ∧
      groups.flatten = done.map w.cells := by
    simp only [Stands, Encodes, hf] at hs
    unfold parquetBefore
    split at hs
    · rename_i hst
      obtain ⟨c, hc, groups, rfl, hg⟩ := hs
      exact ⟨groups, by rw [hst, hc], hg⟩
    · rename_i hst
      obtain ⟨hfile, rfl⟩ := hs
      rw [Bool.not_eq_true] at hst
      exact ⟨[], by rw [hst, parquetColumns_eq hkinds], rfl⟩
  obtain ⟨groups, hp, hg⟩ := hbefore
  have hadd : Parquet.add ⟨w.parquetTypes, groups⟩ (rs.map w.cells) =
      .ok ⟨w.parquetTypes, groups ++ [rs.map w.cells]⟩ := by
    rw [Parquet.add, castRows_eq rfl hkinds]
    rfl
  refine ⟨.parquet ⟨w.parquetTypes, groups ++ [rs.map w.cells]⟩, ?_, ?_⟩
  · rw [parquetAfter, storeRows_eq (hw.columns hne) hkinds]
    simp only [if_pos (hw.distinct hf), hp, hadd]
  · simp only [Encodes, hf]
    exact ⟨_, rfl, by rw [List.flatten_append, hg, List.flatten_singleton, List.map_append]⟩

theorem avroAfter_encodes (hw : w.Ready) (hf : w.format = .avro) (hs : w.Stands done)
    (h : ∀ r ∈ rs, w.Writable r) :
    ∃ c, w.avroAfter rs = (some c, none) ∧ w.Encodes (done ++ rs) c := by
  have hbefore : Avro.Cuts w.schema done w.avroBefore := by
    simp only [Stands, Encodes, hf] at hs
    unfold avroBefore
    split at hs
    · rename_i hst
      obtain ⟨c, hc, blocks, rfl, hcuts⟩ := hs
      rw [hst, hc]
      exact hcuts
    · rename_i hst
      obtain ⟨hfile, rfl⟩ := hs
      rw [Bool.not_eq_true] at hst
      rw [hst]
      exact ⟨[], rfl, rfl⟩
  obtain ⟨hnone, hcuts⟩ := @Avro.cuts_blocksOf w.schema rs [] {} ⟨rfl, rfl⟩ fun r hr => (h r hr).encodes hf
  refine ⟨.avro (w.avroBefore ++ (Avro.blocksOf w.schema rs {}).1), ?_, ?_⟩
  · simp only [avroAfter, hw.schema hf, hnone]
  · simp only [Encodes, hf]
    exact ⟨_, rfl, hbefore.append hcuts⟩

theorem fileAfter_encodes (hw : w.Ready) (hs : w.Stands done) (h : ∀ r ∈ rs, w.Writable r) :
    ∃ c, w.fileAfter rs = (some c, none) ∧ w.Encodes (done ++ rs) c := by
  unfold fileAfter
  split <;> rename_i hf
  · exact avroAfter_encodes hw hf hs h
  · exact csvAfter_encodes hw hf hs h
  · exact parquetAfter_encodes hw hf hs h

end Writer

end RecordForge
