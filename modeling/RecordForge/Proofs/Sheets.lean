import RecordForge.Proofs.Scripts

/-!
# What a comma-separated file tells of its records

A file can be read in one way only, whatever its fields hold. What it does not tell apart is lost before, when values
are made texts: null is the empty text, a number that is none is stored as null, and numbers of single precision are
rounded.

* `ColumnType.kept`, `text_kept_injective`: what a file keeps of a value, and that its text says what this is.
* `Writer.Alike`: two records of which a file keeps the same.
* **`csv_files_equal_iff`**: two files are equal exactly if their records are alike, one after the other.
-/

namespace RecordForge

/-! ## Values -/

namespace ColumnType

open Decimal Binary

/-- What a comma-separated file keeps of a value in a column: null where the text is empty or the number is none, and
the nearest number of single precision in a column of such numbers. -/
def kept (t : ColumnType) : Value → Value
  | .text s => if s = "" then .null else .text s
  | .float x => storeFloat (if t = float32 then toSingle x else x)
  | v => v

section

variable {t : ColumnType} {k : Kind} {v v' u : Value} {x : Float}

theorem kept_float (t : ColumnType) (x : Float) :
    t.kept (.float x) = if x.isNaN then .null else .float (if t = float32 then toSingle x else x) := by
  have hnan : (if t = float32 then toSingle x else x).isNaN = x.isNaN := by
    split
    · exact isNaN_toSingle x
    · rfl
  rw [kept, storeFloat, hnan]

/-- Null is kept of null, of the empty text and of what is no number, and of nothing else. -/
theorem kept_eq_null_iff :
    t.kept v = .null ↔ v = .null ∨ v = .text "" ∨ ∃ x : Float, v = .float x ∧ x.isNaN = true := by
  cases v with
  | null => simp [kept]
  | bool b => simp [kept]
  | int n => simp [kept]
  | float x => simp [kept_float]
  | text s => simp [kept]

/-- What is written of a value is what is written of it as it is kept. -/
theorem text_store? (h : k.Takes v) (hu : (ofKind (some k)).store? v = some u) :
    (ofKind (some k)).text u = (ofKind (some k)).text ((ofKind (some k)).kept v) := by
  have hstored := stores_of_store? h hu
  cases v with
  | null =>
    obtain rfl : u = .null := hstored
    rfl
  | bool b => cases k <;> exact h.elim
  | int n =>
    obtain rfl : u = .int n := hstored
    rfl
  | float x =>
    have hnearest : k.nearest x = if ofKind (some k) = float32 then toSingle x else x := by cases k <;> rfl
    obtain rfl : u = if x.isNaN then .null else .float (k.nearest x) := hstored
    rw [kept_float, hnearest]
  | text s =>
    obtain rfl : u = .text s := hstored
    rw [kept]
    split
    · rename_i hs
      rw [hs]
      rfl
    · rfl

/-- Only null leaves an empty field. -/
theorem text_kept_ne_empty (h : t.kept v ≠ .null) : t.text (t.kept v) ≠ "" := by
  cases v with
  | null => exact absurd rfl h
  | bool b =>
    show Document.renderValue (.bool b) ≠ ""
    cases b <;> decide
  | int n =>
    intro he
    exact numeral_ne_nil n (congrArg String.toList he)
  | float x =>
    rw [kept_float] at h ⊢
    split
    · rename_i hx
      exact absurd (if_pos hx) h
    · rename_i hx
      exact shortestText_ne_empty (coarse_style t) (covers_style t (eq_false_of_ne_true hx))
  | text s =>
    rw [kept] at h ⊢
    split
    · rename_i hs
      exact absurd (if_pos hs) h
    · rename_i hs
      exact hs

/-- **The text of a value in a column says what is kept of it.** -/
theorem text_kept_injective (h : k.Takes v) (h' : k.Takes v') (ht : t.text (t.kept v) = t.text (t.kept v')) :
    t.kept v = t.kept v' := by
  by_cases hnull : t.kept v = .null
  · by_contra hne
    rw [hnull] at ht hne
    exact text_kept_ne_empty (Ne.symm hne) ht.symm
  by_cases hnull' : t.kept v' = .null
  · rw [hnull'] at ht
    exact absurd ht (text_kept_ne_empty hnull)
  -- both have texts that are not empty, and they are of one kind
  cases v with
  | null => exact absurd rfl hnull
  | bool b => cases k <;> exact h.elim
  | int n =>
    cases v' with
    | null => exact absurd rfl hnull'
    | int n' => exact congrArg Value.int (integer_injective ht)
    | _ => cases k <;> first | exact h.elim | exact h'.elim
  | float x =>
    cases v' with
    | null => exact absurd rfl hnull'
    | float x' =>
      rw [kept_float] at hnull hnull' ht ⊢
      rw [kept_float] at ht ⊢
      have hx : x.isNaN = false := eq_false_of_ne_true fun hx => hnull (if_pos hx)
      have hx' : x'.isNaN = false := eq_false_of_ne_true fun hx => hnull' (if_pos hx)
      rw [hx, hx'] at ht ⊢
      exact congrArg Value.float
        (shortestText_injective (coarse_style t) (covers_style t hx) (covers_style t hx') ht)
    | _ => cases k <;> first | exact h.elim | exact h'.elim
  | text s =>
    cases v' with
    | null => exact absurd rfl hnull'
    | text s' =>
      have hs : s ≠ "" := fun hs => hnull (if_pos hs)
      have hs' : s' ≠ "" := fun hs => hnull' (if_pos hs)
      rw [kept, kept, if_neg hs, if_neg hs'] at ht ⊢
      exact congrArg Value.text ht
    | _ => cases k <;> first | exact h.elim | exact h'.elim

end

end ColumnType

/-! ## Files -/

namespace Writer

variable {w : Writer} {r r' : Record} {rs rs' : List Record}

/-- A comma-separated file keeps the same of two records. -/
def Alike (w : Writer) (r r' : Record) : Prop :=
  ∀ c ∈ w.columns, (w.columnType c).kept (valueIn r c) = (w.columnType c).kept (valueIn r' c)

/-- A comma-separated file keeps a record as it is: there is no empty text in it, nothing that is no number, and in a
column of numbers of single precision only such numbers. -/
def Kept (w : Writer) (r : Record) : Prop :=
  ∀ c ∈ w.columns, (w.columnType c).kept (valueIn r c) = valueIn r c

theorem valueIn_snapshot {c : String} (hc : c ∈ w.columns) : valueIn (w.snapshot r) c = valueIn r c := by
  rw [valueIn, get?_snapshot hc]
  rfl

theorem alike_snapshot_iff : w.Alike (w.snapshot r) (w.snapshot r') ↔ w.Alike r r' := by
  refine forall₂_congr fun c hc => ?_
  rw [valueIn_snapshot hc, valueIn_snapshot hc]

/-- Records that are kept as they are have the same in each column if they are alike. -/
theorem snapshot_eq_of_alike (h : w.Alike r r') (hr : w.Kept r) (hr' : w.Kept r') : w.snapshot r = w.snapshot r' := by
  refine List.map_congr_left fun c hc => ?_
  have hc : c ∈ w.columns := mem_firsts.mp hc
  have hvalue : valueIn r c = valueIn r' c := (hr c hc).symm.trans ((h c hc).trans (hr' c hc))
  exact congrArg (c, ·) hvalue

/-- The rows of two records are the same exactly if the records are alike. -/
theorem csvFields_eq_iff (h : w.KindsTake r) (h' : w.KindsTake r') :
    w.csvFields (w.cells r) = w.csvFields (w.cells r') ↔ w.Alike r r' := by
  rw [csvFields_cells, csvFields_cells, List.map_inj_left]
  refine forall₂_congr fun c hc => ?_
  have hcell := store?_cell h hc
  have hcell' := store?_cell h' hc
  obtain ⟨k, hk, ht⟩ := h c hc
  obtain ⟨k', hk', ht'⟩ := h' c hc
  obtain rfl : k = k' := Option.some.inj (hk.symm.trans hk')
  rw [columnType, hk] at hcell hcell' ⊢
  rw [String.toList_inj, ColumnType.text_store? ht hcell, ColumnType.text_store? ht' hcell']
  exact ⟨ColumnType.text_kept_injective ht ht', congrArg _⟩

/-- **The texts of two files are the same exactly if their records are alike**, one after the other. -/
theorem textOf_eq_iff (h : ∀ r ∈ rs, w.KindsTake r) (h' : ∀ r ∈ rs', w.KindsTake r) :
    w.textOf rs = w.textOf rs' ↔ List.Forall₂ w.Alike rs rs' := by
  have htable : w.textOf rs = w.textOf rs' ↔
      rs.map (fun r => w.csvFields (w.cells r)) = rs'.map fun r => w.csvFields (w.cells r) := by
    rw [textOf, textOf, String.ofList_inj, List.map_map, List.map_map]
    exact ⟨fun ht => (List.cons.inj (Csv.table_injective ht)).2, fun ht => congrArg _ (congrArg _ ht)⟩
  rw [htable, ← List.forall₂_eq_eq_eq, List.forall₂_map_left_iff, List.forall₂_map_right_iff]
  have hpair {r r' : Record} (hr : (r, r') ∈ rs.zip rs') :
      w.csvFields (w.cells r) = w.csvFields (w.cells r') ↔ w.Alike r r' :=
    csvFields_eq_iff (h r (List.of_mem_zip hr).1) (h' r' (List.of_mem_zip hr).2)
  rw [List.forall₂_iff_zip, List.forall₂_iff_zip]
  exact ⟨fun hall => ⟨hall.1, fun hr => (hpair hr).mp (hall.2 hr)⟩,
    fun hall => ⟨hall.1, fun hr => (hpair hr).mpr (hall.2 hr)⟩⟩

end Writer

/-- A script that hands records to a writer of comma-separated files makes a file of them. -/
theorem Desk.file_of_csv {columns : List String} {interval : Nat} {kinds : Ledger String Kind}
    {schema : Option Document} {dialect : Csv.Dialect} {w : Writer}
    (hw : Writer.create .csv columns interval kinds schema dialect = .ok w)
    (hc : columns ≠ []) {acts : List Act} (hacts : .close ∉ acts) (dicts : Nat → Record)
    (h : ∀ r ∈ appended dicts acts, w.KindsTake r) (n : Nat) :
    ∃ s, run ⟨dicts, w⟩ (acts ++ List.replicate (n + 1) .close) = .ok s ∧
      s.writer.visible = some (.text (w.textOf ((appended dicts acts).map w.snapshot))) := by
  obtain ⟨hcolumns, -, hinit, -⟩ := Writer.create_eq hw
  have hformat : w.format = .csv := by
    cases hw
    rfl
  have hother : w.format ≠ .avro ∧ w.format ≠ .parquet := by
    rw [hformat]
    exact ⟨nofun, nofun⟩
  have hready : w.Ready :=
    ⟨fun _ => hcolumns ▸ hc, fun hf => absurd hf hother.2, fun hf => absurd hf hother.1⟩
  have hwritable : ∀ r ∈ (appended dicts acts).map w.snapshot, w.Writable r := by
    intro r hr
    obtain ⟨q, hq, rfl⟩ := List.mem_map.mp hr
    exact ⟨fun _ => Writer.kindsTake_snapshot (h q hq), fun hf => absurd hf hother.1⟩
  obtain ⟨dicts', q, hrun, hq, -, hclosed⟩ :=
    run_through hready hacts (n + 1) ⟨rfl, rfl, ⟨rfl, rfl⟩, nofun⟩ hwritable
  obtain ⟨c, hfile, hencodes⟩ := hq.file_of_closed (hclosed (Nat.succ_pos n))
  simp only [Writer.Encodes, hformat] at hencodes
  refine ⟨_, Writer.create_run hinit hrun, ?_⟩
  have hvisible : (w.inState q).visible = q.file := by
    have hstate : (w.inState q).format = .csv := hformat
    rw [Writer.visible, hstate]
    rfl
  rw [hvisible, hfile, hencodes]

/-- **Two comma-separated files with the same columns are equal exactly if their records are alike**, one after the
other, whatever the intervals and the flushes. So a file tells of records that it keeps as they are what they have in
each column, and it tells null from every value but the empty text and what is no number. -/
theorem csv_files_equal_iff {columns : List String} {interval interval' : Nat} {kinds : Ledger String Kind}
    {schema schema' : Option Document} {dialect : Csv.Dialect} {w w' : Writer}
    (hw : Writer.create .csv columns interval kinds schema dialect = .ok w)
    (hw' : Writer.create .csv columns interval' kinds schema' dialect = .ok w') (hnonempty : columns ≠ [])
    {acts acts' : List Act} (hacts : .close ∉ acts) (hacts' : .close ∉ acts') (dicts dicts' : Nat → Record)
    (h : ∀ r ∈ Desk.appended dicts acts, w.KindsTake r) (h' : ∀ r ∈ Desk.appended dicts' acts', w.KindsTake r)
    (n n' : Nat) :
    ∃ s s' c c', Desk.run ⟨dicts, w⟩ (acts ++ List.replicate (n + 1) .close) = .ok s ∧
      Desk.run ⟨dicts', w'⟩ (acts' ++ List.replicate (n' + 1) .close) = .ok s' ∧
      s.writer.visible = some c ∧ s'.writer.visible = some c' ∧
      (c = c' ↔ List.Forall₂ w.Alike (Desk.appended dicts acts) (Desk.appended dicts' acts')) ∧
      ((∀ r ∈ Desk.appended dicts acts, w.Kept r) → (∀ r ∈ Desk.appended dicts' acts', w.Kept r) → c = c' →
        (Desk.appended dicts acts).map w.snapshot = (Desk.appended dicts' acts').map w.snapshot) ∧
      (c = c' → List.Forall₂ (fun r r' => ∀ name ∈ columns, Writer.valueIn r name = .null →
        Writer.valueIn r' name = .null ∨ Writer.valueIn r' name = .text "" ∨
          ∃ x : Float, Writer.valueIn r' name = .float x ∧ x.isNaN = true)
        (Desk.appended dicts acts) (Desk.appended dicts' acts')) := by
  obtain ⟨hcolumns, -⟩ := Writer.create_eq hw
  -- the writers differ in their intervals only, and these leave no trace in the text
  obtain ⟨hkinds, htext, hsnapshot⟩ :
      w'.KindsTake = w.KindsTake ∧ w'.textOf = w.textOf ∧ w'.snapshot = w.snapshot := by
    cases hw
    cases hw'
    exact ⟨rfl, rfl, rfl⟩
  obtain ⟨s, hrun, hfile⟩ := Desk.file_of_csv hw hnonempty hacts dicts h n
  obtain ⟨s', hrun', hfile'⟩ := Desk.file_of_csv hw' hnonempty hacts' dicts' (hkinds ▸ h') n'
  rw [htext, hsnapshot] at hfile'
  have halike : Content.text (w.textOf ((Desk.appended dicts acts).map w.snapshot)) =
      .text (w.textOf ((Desk.appended dicts' acts').map w.snapshot)) ↔
      List.Forall₂ w.Alike (Desk.appended dicts acts) (Desk.appended dicts' acts') := by
    have hheld {dicts : Nat → Record} {acts : List Act} (h : ∀ r ∈ Desk.appended dicts acts, w.KindsTake r) :
        ∀ r ∈ (Desk.appended dicts acts).map w.snapshot, w.KindsTake r := by
      intro r hr
      obtain ⟨q, hq, rfl⟩ := List.mem_map.mp hr
      exact Writer.kindsTake_snapshot (h q hq)
    rw [Content.text.injEq, Writer.textOf_eq_iff (hheld h) (hheld h'), List.forall₂_map_left_iff,
      List.forall₂_map_right_iff]
    simp only [Writer.alike_snapshot_iff]
  refine ⟨s, s', _, _, hrun, hrun', hfile, hfile', halike, fun hkept hkept' hc => ?_, fun hc => ?_⟩
  · have hall := List.forall₂_iff_zip.mp (halike.mp hc)
    rw [← List.forall₂_eq_eq_eq, List.forall₂_map_left_iff, List.forall₂_map_right_iff, List.forall₂_iff_zip]
    exact ⟨hall.1, fun hr => Writer.snapshot_eq_of_alike (hall.2 hr) (hkept _ (List.of_mem_zip hr).1)
      (hkept' _ (List.of_mem_zip hr).2)⟩
  · refine (halike.mp hc).imp fun r r' hr name hname hnull => ?_
    have hsame := hr name (hcolumns.symm ▸ hname)
    rw [hnull] at hsame
    exact ColumnType.kept_eq_null_iff.mp hsame.symm

/-- A writer with a column of some kind and one of integers. -/
def sheetWriter (k : Kind) (interval : Nat) : Writer where
  format := .csv
  columns := ["a", "b"]
  interval := interval
  kinds := [("a", k), ("b", .int)]
  schema := { type := .record [] }
  dialect := { quotesReturns := true }

/-- A record with some value in the first of these columns. -/
def sheetRecord (v : Value) : Record := [("a", v), ("b", .int 1)]

theorem kindsTake_sheetRecord {k : Kind} {v : Value} (hv : k.Takes v) (interval : Nat) :
    (sheetWriter k interval).KindsTake (sheetRecord v) := by
  intro c hc
  have hname : c = "a" ∨ c = "b" := by simpa [sheetWriter] using hc
  rcases hname with rfl | rfl
  · exact ⟨k, rfl, hv⟩
  · exact ⟨.int, rfl, (by decide : Word.IsInt 1)⟩

/-- A quoted text and null make different files, however the records are flushed. -/
theorem csv_files_equal_iff_quoted : ∃ s s',
    Desk.run ⟨fun _ => sheetRecord (.text "\"x\"\r"), sheetWriter .string 1⟩
      ([.append 0, .append 0] ++ List.replicate 1 .close) = .ok s ∧
    Desk.run ⟨fun _ => sheetRecord .null, sheetWriter .string 0⟩
      ([.append 0, .flush, .append 0] ++ List.replicate 2 .close) = .ok s' ∧
    s.writer.visible = some (.text "a,b\n\"\"\"x\"\"\r\",1\n\"\"\"x\"\"\r\",1\n") ∧
    s'.writer.visible = some (.text "a,b\n,1\n,1\n") ∧ s.writer.visible ≠ s'.writer.visible := by
  have hrecord {v : Value} (hv : Kind.string.Takes v) :
      ∀ r ∈ [sheetRecord v, sheetRecord v], (sheetWriter .string 1).KindsTake r := by
    intro r hr
    obtain rfl : r = sheetRecord v := by simpa using hr
    exact kindsTake_sheetRecord hv 1
  have hcreate (i : Nat) : Writer.create .csv ["a", "b"] i [("a", .string), ("b", .int)] none
      { quotesReturns := true } = .ok (sheetWriter .string i) := rfl
  have hopen : Act.close ∉ [.append 0, .append 0] ∧ Act.close ∉ [.append 0, .flush, .append 0] := by decide
  obtain ⟨s, s', c, c', hrun, hrun', hc, hc', halike, -, -⟩ := csv_files_equal_iff (hcreate 1) (hcreate 0) (by decide)
    hopen.1 hopen.2 (fun _ => sheetRecord (.text "\"x\"\r")) (fun _ => sheetRecord .null) (hrecord trivial)
    (hrecord trivial) 0 1
  refine ⟨s, s', hrun, hrun', (Desk.left?_of_run hrun).symm.trans rfl, (Desk.left?_of_run hrun').symm.trans rfl, ?_⟩
  rw [hc, hc']
  intro he
  have hfirst := (List.forall₂_cons.mp (halike.mp (Option.some.inj he))).1
  have hsame : (Value.text "\"x\"\r") = .null := hfirst "a" (by decide)
  cases hsame

/-- The file that a writer makes of one record. -/
def Writer.fileOf (w : Writer) (r : Record) : Option Content := Desk.left? ⟨fun _ => r, w⟩ [.append 0, .close]

/-- Two records with values of the kinds of the columns differ, but both make the same file. -/
structure Writer.Confuses (w : Writer) (r r' : Record) (file : String) : Prop where
  left : w.KindsTake r
  right : w.KindsTake r'
  differ : r ≠ r'
  leftFile : w.fileOf r = some (.text file)
  rightFile : w.fileOf r' = some (.text file)

theorem confuses_of_files {k : Kind} {v v' : Value} {file : String} (hv : k.Takes v) (hv' : k.Takes v')
    (hne : sheetRecord v ≠ sheetRecord v') (hfile : (sheetWriter k 1).fileOf (sheetRecord v) = some (.text file))
    (hfile' : (sheetWriter k 1).fileOf (sheetRecord v') = some (.text file)) :
    (sheetWriter k 1).Confuses (sheetRecord v) (sheetRecord v') file :=
  ⟨kindsTake_sheetRecord hv 1, kindsTake_sheetRecord hv' 1, hne, hfile, hfile'⟩

/-- The empty text, what is no number and what is not of single precision are each taken for another value. -/
theorem csv_file_confuses :
    (sheetWriter .string 1).Confuses (sheetRecord (.text "")) (sheetRecord .null) "a,b\n,1\n" ∧
    (sheetWriter .double 1).Confuses (sheetRecord (.float Binary.nan)) (sheetRecord .null) "a,b\n,1\n" ∧
    (sheetWriter .float 1).Confuses (sheetRecord (.float (Binary.encode ⟨false, 2 ^ 52 + 1, -52⟩)))
      (sheetRecord (.float (Binary.encode ⟨false, 1, 0⟩))) "a,b\n1.0,1\n" := by
  refine ⟨?_, ?_, ?_⟩
  · exact confuses_of_files trivial trivial (by decide) rfl rfl
  · exact confuses_of_files trivial trivial (by decide) rfl rfl
  · exact confuses_of_files trivial trivial (by decide) (by decide +kernel) (by decide +kernel)

end RecordForge
