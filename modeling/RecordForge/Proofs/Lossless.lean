import RecordForge.Draw.Script
import RecordForge.Proofs.Decoding
import RecordForge.Proofs.Plans
import RecordForge.Proofs.Production

/-!
# What can be read from an Avro file

The blocks of the Avro file of a run are decoded by its schema. There is a record for each one that was
generated, with a value for each field, and it is the value generated exactly if the schema keeps it.
The encoder is told the value and not the member of a union that it was generated as, so not all values
are kept.

* `keys_fillTimes`: every generated record has the columns of the writer.
* **`decoded_of_run`**: what is decoded of the file of a run.
-/

namespace RecordForge

/-! ## Records of a plan -/

section Records

variable {σ : Type} [Source σ]

/-- Filling a record writes to the fields that it has. -/
theorem keys_fill : ∀ {recipe : Recipe} {r : Record} {pool : Pool} {s : σ},
    (∀ e ∈ recipe, e.1 ∈ Ledger.keys r) →
      Ledger.keys (fill recipe r pool s).record = Ledger.keys r
  | [], _, _, _, _ => rfl
  | (field, name) :: rest, r, pool, s, h => by
    simp only [fill]
    split
    · rename_i v pool' s' _
      have hkeys : Ledger.keys (Ledger.set r field v) = Ledger.keys r := by
        rw [Ledger.keys_set, if_pos (h _ List.mem_cons_self)]
      rw [keys_fill, hkeys]
      intro e he
      rw [hkeys]
      exact h e (List.mem_cons_of_mem _ he)
    · rfl

theorem keys_fillTimes {recipe : Recipe} : ∀ {count : Nat} {f : Filling σ},
    (∀ e ∈ recipe, e.1 ∈ Ledger.keys f.record) →
      ∀ r ∈ (fillTimes recipe count f).1, Ledger.keys r = Ledger.keys f.record
  | 0, _, _, r, hr => absurd hr List.not_mem_nil
  | count + 1, f, h, r, hr => by
    have hkeys := @keys_fill σ _ recipe f.record f.pool f.source h
    simp only [fillTimes] at hr
    split at hr
    · exact absurd hr List.not_mem_nil
    · rcases List.mem_cons.mp hr with rfl | hr
      · exact hkeys
      · rw [← hkeys]
        refine keys_fillTimes ?_ r hr
        rw [hkeys]
        exact h

end Records

theorem Dialog.keys_of_configureFields : ∀ {fields : List Descriptor} {c c' : Configuration}
    {s t : Session} {e : Option Failure}, configureFields c fields s = (e, c', t) →
      ∀ name ∈ Ledger.keys c'.pool, name ∈ Ledger.keys c.pool ∨ name ∈ fields.map (·.name)
  | [], _, _, _, _, _, h, name, hn => by
    cases h
    exact Or.inl hn
  | d :: rest, c, c', s, t, e, h, name, hn => by
    simp only [configureFields] at h
    rw [List.map_cons, List.mem_cons]
    split at h
    · rcases keys_of_configureFields h name hn with hk | hk
      · rw [Configuration.settle, Ledger.keys_set] at hk
        split at hk
        · exact Or.inl hk
        · rcases List.mem_append.mp hk with hk | hk
          · exact Or.inl hk
          · exact Or.inr (Or.inl (List.mem_singleton.mp hk))
      · exact Or.inr (Or.inr hk)
    · cases h
      exact Or.inl hn

/-! ## Records of the columns of a file -/

/-- Two lists that are related item by item are the same up to a map exactly if all items agree. -/
theorem eq_map_iff_of_forall₂ {α β : Type} {P : α → β → Prop} {f : α → β} {Q : α → Prop} {as : List α}
    {bs : List β} (h : List.Forall₂ P as bs) (hP : ∀ a ∈ as, ∀ b, P a b → (b = f a ↔ Q a)) :
    bs = as.map f ↔ ∀ a ∈ as, Q a := by
  induction h with
  | nil => exact iff_of_true rfl fun a ha => absurd ha List.not_mem_nil
  | @cons a b as bs hab _ ih =>
    rw [List.map_cons, List.cons.injEq, List.forall_mem_cons, hP a List.mem_cons_self b hab,
      ih fun a' ha' => hP a' (List.mem_cons_of_mem a ha')]

theorem firsts_of_nodup : ∀ {l : List String}, l.Nodup → firsts l = l
  | [], _ => rfl
  | a :: l, h => by
    obtain ⟨ha, hl⟩ := List.nodup_cons.mp h
    rw [firsts, firsts_of_nodup hl, List.filter_eq_self.mpr]
    intro b hb
    exact decide_eq_true fun he => ha (he ▸ hb)

theorem exists_get?_of_mem_keys {k : String} : ∀ {r : Record}, k ∈ Ledger.keys r →
    ∃ v, Ledger.get? r k = some v
  | [], h => absurd h List.not_mem_nil
  | (k', v') :: rest, h => by
    rw [Ledger.get?]
    by_cases hk : k' = k
    · exact ⟨v', if_pos hk⟩
    · rw [if_neg hk]
      exact exists_get?_of_mem_keys ((List.mem_cons.mp h).resolve_left fun he => hk he.symm)

/-- A record is known by its fields in order and what it has there. -/
theorem eq_map_of_keys : ∀ {r : Record}, (Ledger.keys r).Nodup →
    r = (Ledger.keys r).map fun c => (c, Writer.valueIn r c)
  | [], _ => rfl
  | (k, v) :: rest, h => by
    have hkeys : Ledger.keys ((k, v) :: rest) = k :: Ledger.keys rest := rfl
    rw [hkeys] at h ⊢
    obtain ⟨hk, hrest⟩ := List.nodup_cons.mp h
    have hhead : Writer.valueIn ((k, v) :: rest) k = v := by
      rw [Writer.valueIn, Ledger.get?, if_pos rfl]
      rfl
    rw [List.map_cons, hhead]
    refine congrArg ((k, v) :: ·) ((eq_map_of_keys hrest).trans (List.map_congr_left fun c hc => ?_))
    have hne : k ≠ c := fun he => hk (he ▸ hc)
    rw [Writer.valueIn, Writer.valueIn, Ledger.get?, if_neg hne]

/-- A record with the columns of a writer is held as it is. -/
theorem Writer.snapshot_eq {w : Writer} {r : Record} (hn : w.columns.Nodup)
    (hr : Ledger.keys r = w.columns) : w.snapshot r = r := by
  have hmap := eq_map_of_keys (r := r) (by rw [hr]; exact hn)
  rw [hr] at hmap
  rw [snapshot, firsts_of_nodup hn]
  exact hmap.symm

namespace AvroSchema

variable {s : AvroSchema} {fields : List (AvroField AvroType)} {r : Record}

/-- A decoded record is the one that was generated exactly if the schema keeps all its values. -/
theorem Recovers.eq_iff {d : Document} (h : s.Recovers fields r d)
    (hr : Ledger.keys r = fields.map (·.name)) (hn : (fields.map (·.name)).Nodup) :
    d = .ofRecord r ↔ ∀ f ∈ fields, s.keeps f.type (Writer.valueIn r f.name) = true := by
  obtain ⟨entries, rfl, hall⟩ := h
  have hmap := eq_map_of_keys (r := r) (by rw [hr]; exact hn)
  have hrecord : Document.ofRecord r =
      .dict (fields.map fun f => (.text f.name, .value (Writer.valueIn r f.name))) := by
    rw [hr] at hmap
    rw [Document.ofRecord]
    conv_lhs => rw [hmap]
    rw [List.map_map, List.map_map]
    rfl
  rw [hrecord, Document.dict.injEq]
  refine eq_map_iff_of_forall₂ hall fun f _ e he => ?_
  obtain ⟨hname, hvalue⟩ := he
  rw [Prod.ext_iff, hname]
  exact ⟨fun h => hvalue.mp h.2, fun h => ⟨rfl, hvalue.mpr h⟩⟩

end AvroSchema

/-! ## Files of runs -/

theorem document_of_create {format : Format} {columns : List String} {interval : Nat}
    {kinds : Ledger String Kind} {d : Document} {dialect : Csv.Dialect} {w : Writer} (hf : format = .avro)
    (hw : Writer.create format columns interval kinds (some d) dialect = .ok w) :
    w.format = .avro ∧ AvroSchema.ofDocument d = .ok w.schema := by
  subst hf
  unfold Writer.create at hw
  rw [if_pos rfl] at hw
  obtain ⟨s, hs, rfl⟩ := map_eq_ok.mp hw
  exact ⟨rfl, hs⟩

theorem load_of_ofFile {disk : Disk} {path : Path} {l : Schema.Loader}
    (h : Schema.Loader.ofFile disk path = .ok l) :
    ∃ d, Schema.documentOf disk path = .ok d ∧ (Schema.Loader.load {} d) = (l, none) := by
  unfold Schema.Loader.ofFile at h
  split at h
  · rename_i l' hl
    cases h
    unfold Schema.Loader.loadFile at hl
    split at hl
    · rename_i d hd
      exact ⟨d, hd, hl⟩
    · cases hl
  · cases h

variable {σ : Type}

/-- What the plan of a run with an Avro file has to do with the schema. -/
theorem schema_of_plan {q : Request σ} {disk : Disk} {output : Path} {p : Plan σ} {s t : Session}
    (hf : q.options.format = .avro) (h : (q.prepare disk).run s = (.ok (output, some p), t)) :
    p.output = output ∧ p.writer.format = .avro ∧ p.writer = p.writer.inState {} ∧
      p.writer.columns.Nodup ∧ (∀ name ∈ Ledger.keys p.pool, name ∈ p.writer.columns) ∧
      ∃ d fields, AvroSchema.ofDocument d = .ok p.writer.schema ∧
        p.writer.schema.type = .record fields ∧ fields.map (·.name) = p.writer.columns := by
  obtain ⟨u, hplan⟩ := Request.prepare_ok h
  obtain ⟨loader, c, s₁, s₂, hloader, hc, hwriter, houtput, hpool⟩ := Request.plan_ok hplan
  obtain ⟨d, -, hload⟩ := load_of_ofFile hloader
  have hdone : (Schema.Loader.load {} d).2 = none := by rw [hload]
  have hnodup := Schema.names_nodup_of_load hdone
  obtain ⟨hdocument, entries, hentries, hnames⟩ := Schema.names_of_load hdone
  rw [hload] at hnodup hdocument hnames
  obtain ⟨hcolumns, -, hinit, -⟩ := Writer.create_eq hwriter
  obtain ⟨hformat, hschema⟩ := document_of_create hf hwriter
  dsimp only at hdocument hnames hnodup
  rw [hdocument] at hschema
  obtain ⟨fields, hfields⟩ := AvroSchema.record_of_document hschema hentries
  refine ⟨houtput, hformat, hinit, ?_, ?_, d, fields, hschema, hfields, ?_⟩
  · rw [hcolumns]
    exact hnodup
  · intro name hn
    rw [hpool] at hn
    rw [hcolumns]
    exact (Dialog.keys_of_configureFields hc name hn).resolve_left List.not_mem_nil
  · rw [hcolumns]
    exact AvroSchema.names_of_document hschema hfields hentries hnames

/-- Records with the columns of a writer have the fields of its schema. -/
theorem fields_of_keys {rs : List Record} {columns : List String} {fields : List (AvroField AvroType)}
    (hkeys : ∀ r ∈ rs, Ledger.keys r = columns) (hnames : fields.map (·.name) = columns) :
    ∀ r ∈ rs, ∀ f ∈ fields, ∃ v, Ledger.get? r f.name = some v := by
  intro r hr f hf
  refine exists_get?_of_mem_keys ?_
  rw [hkeys r hr, ← hnames]
  exact List.mem_map_of_mem hf

variable [Source σ]

/-- The records of a plan have the columns of its writer. -/
theorem keys_of_mem_records {p : Plan σ} {r : Record}
    (h : ∀ name ∈ Ledger.keys p.pool, name ∈ p.writer.columns) (hr : r ∈ p.records) :
    Ledger.keys r = p.writer.columns := by
  have hkeys : Ledger.keys (p.writer.columns.map fun c => (c, Value.null)) = p.writer.columns := by
    rw [Ledger.keys, List.map_map]
    exact List.map_id _
  have hrecord := keys_fillTimes (f := ⟨none, p.writer.columns.map fun c => (c, .null), p.pool, p.source⟩)
    (fun e he => ?_) r hr
  · rw [hrecord]
    exact hkeys
  · obtain ⟨name, hname, rfl⟩ := List.mem_map.mp he
    show name ∈ Ledger.keys (p.writer.columns.map fun c => (c, Value.null))
    rw [hkeys]
    exact h name hname

/-- **What is decoded of the Avro file of a run** is a record for each one that was generated, in order
and field by field, and it is the very records exactly if the schema keeps all their values. -/
theorem decoded_of_run {q : Request σ} {disk : Disk} {output : Path} {p : Plan σ} {s t : Session}
    {n : Nat} (hf : q.options.format = .avro)
    (hp : (q.prepare disk).run s = (.ok (output, some p), t))
    (hn : (q.run disk s).result = .ok n) :
    ∃ fields blocks decoded, p.writer.schema.type = .record fields ∧
      fields.map (·.name) = p.writer.columns ∧
      (q.run disk s).disk.content? output = some (.avro blocks) ∧
      Avro.decodeBlocks p.writer.schema blocks = some decoded ∧ n = p.records.length ∧
      List.Forall₂ (p.writer.schema.Recovers fields) p.records decoded ∧
      (decoded = p.records.map Document.ofRecord ↔
        ∀ r ∈ p.records, ∀ f ∈ fields, p.writer.schema.keeps f.type (Writer.valueIn r f.name) = true) := by
  have hrun : q.run disk s = p.execute disk t := by
    unfold Request.run
    rw [hp]
  rw [hrun] at hn ⊢
  obtain ⟨houtput, hformat, hinit, hnodup, hpool, d, fields, hd, hfields, hnames⟩ := schema_of_plan hf hp
  obtain ⟨hlength, c, hc, hencodes, hencodable⟩ := file_of_execute hformat hinit hn
  have hkeys : ∀ r ∈ p.records, Ledger.keys r = p.writer.columns :=
    fun r hr => keys_of_mem_records hpool hr
  have hsnapshot : p.records.map p.writer.snapshot = p.records := by
    refine (List.map_congr_left fun r hr => ?_).trans (List.map_id _)
    exact Writer.snapshot_eq hnodup (hkeys r hr)
  rw [hsnapshot] at hencodes hencodable
  simp only [Writer.Encodes, hformat] at hencodes
  obtain ⟨blocks, rfl, hcuts⟩ := hencodes
  obtain ⟨decoded, hdecoded, hall⟩ :=
    AvroSchema.recovers_of_cuts hd hfields (fields_of_keys hkeys hnames) hencodable hcuts
  refine ⟨fields, blocks, decoded, hfields, hnames, ?_, hdecoded, hlength, hall, ?_⟩
  · rw [← houtput]
    exact hc
  · refine eq_map_iff_of_forall₂ hall fun r hr x hx => ?_
    refine hx.eq_iff ?_ ?_
    · rw [hkeys r hr, hnames]
    · rw [hnames]
      exact hnodup

/-- The schema of a record of one number, which is a double or a long. -/
def numberSchema : String :=
  "\x7b\"type\": \"record\", \"name\": \"Number\", \"fields\": [" ++
    "\x7b\"name\": \"n\", \"type\": [\"double\", \"long\"]\x7d]\x7d"

/-- A run that makes one such record. -/
def numberRequest : Request Script where
  schema := ⟨"", ["number.avsc"]⟩
  options := .standard
  total := some 1
  source := .ok {}

/-- The files before the run. -/
def numberDisk : Disk := ⟨[⟨"", []⟩], [(⟨"", ["number.avsc"]⟩, .text numberSchema)]⟩

/-- The number is generated as a long, from one on that is no double. -/
def numberAnswers : Session := { answers := ["long", "incr from 9007199254740993"] }

/-- Whether some value of some record of a plan is lost. -/
def Plan.losesValue (p : Plan Script) : Bool :=
  match p.writer.schema.type with
  | .record fields => p.records.any fun r => fields.any fun f =>
    !p.writer.schema.keeps f.type (Writer.valueIn r f.name)
  | _ => false

/-- The number is generated as a long and written as a double, so another is read. -/
theorem decoded_of_run_number : ∃ (p : Plan Script) (blocks : List Avro.Block) (decoded : List Document),
    (numberRequest.run numberDisk numberAnswers).disk.content? ⟨"", ["number.avro"]⟩ =
      some (.avro blocks) ∧
    Avro.decodeBlocks p.writer.schema blocks = some decoded ∧
    p.records = [[("n", .int 9007199254740993)]] ∧ decoded ≠ p.records.map Document.ofRecord := by
  have hplan : ((numberRequest.prepare numberDisk).run numberAnswers).1.toOption.any (fun x =>
      x.1 == ⟨"", ["number.avro"]⟩ && x.2.any fun p =>
        p.records == [[("n", .int 9007199254740993)]] && p.losesValue) = true := by decide +kernel
  have hresult : (numberRequest.run numberDisk numberAnswers).result.toOption = some 1 := by
    decide +kernel
  rcases hp : (numberRequest.prepare numberDisk).run numberAnswers with ⟨e | ⟨output, _ | p⟩, t⟩
  · rw [hp] at hplan
    cases hplan
  · rw [hp] at hplan
    rw [Except.toOption, Option.any_some, Option.any_none, Bool.and_false] at hplan
    cases hplan
  · rcases hn : (numberRequest.run numberDisk numberAnswers).result with e | n
    · rw [hn] at hresult
      cases hresult
    · rw [hp] at hplan
      rw [Except.toOption, Option.any_some, Option.any_some, Bool.and_eq_true, Bool.and_eq_true,
        beq_iff_eq, beq_iff_eq] at hplan
      obtain ⟨rfl, hrecords, hlost⟩ := hplan
      obtain ⟨fields, blocks, decoded, htype, -, hc, hdecoded, -, -, hiff⟩ := decoded_of_run rfl hp hn
      refine ⟨p, blocks, decoded, hc, hdecoded, hrecords, fun hsame => ?_⟩
      rw [Plan.losesValue, htype] at hlost
      obtain ⟨r, hr, hfields⟩ := List.any_eq_true.mp hlost
      obtain ⟨f, hf, hkeeps⟩ := List.any_eq_true.mp hfields
      rw [hiff.mp hsame r hr f hf] at hkeeps
      cases hkeeps

end RecordForge
