import RecordForge.Proofs.Conformity
import RecordForge.Proofs.Interview
import RecordForge.Proofs.Lossless

/-!
# Runs that fail midway

A record that cannot be filled ends a run. The writer is closed all the same, so the records before that
one are in the file, and nothing of that one is. A run for just so many records, with the same answers
otherwise, makes the same file.

* `Writer.appendAll`: records handed to a writer, up to the first failure.
* `produceFrom_eq`: filling and writing taken apart.
* `fillTimes_finished`: the records before a failure are those of a shorter run.
* `encodes_of_appendAll`: what is in the file of a writer that took some records and was closed.
* `execute_of_failsAfter`: what a plan that fails midway leaves, and that for just the finished records.
* `Plan.Proper`, `proper_of_prepare`: what is true of every plan; `readable_of_prepare`: its records can be read again.
* `prepare_withTotal`: a plan for another number of records.
* **`file_of_interrupted_run`**: a run that fails midway keeps exactly the finished records.
-/

namespace RecordForge

/-! ## Handing records over -/

namespace Writer

/-- Records handed to a writer one by one, up to the first failure of a write. -/
def appendAll (w : Writer) : List Record → Writer × Option Failure
  | [] => (w, none)
  | r :: rest =>
    match w.append r with
    | (w, none) => appendAll w rest
    | (w, some e) => (w, some e)

/-- Records are taken when the first of them is, and the others after it. -/
theorem appendAll_cons_ok {w u : Writer} {r : Record} {rest : List Record}
    (h : w.appendAll (r :: rest) = (u, none)) :
    ∃ v, w.append r = (v, none) ∧ v.appendAll rest = (u, none) := by
  unfold appendAll at h
  split at h
  · rename_i v hv
    exact ⟨v, hv, h⟩
  · cases h

theorem Blocked.appendAll : ∀ {rs : List Record} {w u : Writer}, w.Blocked →
    w.appendAll rs = (u, none) → u.Blocked
  | [], _, _, hw, h => by
    cases h
    exact hw
  | r :: rest, w, u, hw, h => by
    obtain ⟨v, hv, hrest⟩ := appendAll_cons_ok h
    have happend := hw.append r
    rw [hv] at happend
    exact Blocked.appendAll happend hrest

variable {w : Writer}

/-- Records that an Avro file takes could be encoded. -/
theorem appendAll_wrote (hf : w.format = .avro) : ∀ {rs : List Record} {u : Writer} {taken : List Record}
    {p : State}, w.Wrote taken p → p.closed = false → (w.inState p).appendAll rs = (u, none) →
      ∃ q, u = w.inState q ∧ w.Wrote (taken ++ rs.map w.snapshot) q ∧ q.closed = false
  | [], u, taken, p, hp, hopen, h => by
    cases h
    exact ⟨p, rfl, by rwa [List.map_nil, List.append_nil], hopen⟩
  | r :: rest, u, taken, p, hp, hopen, h => by
    obtain ⟨v, hv, hrest⟩ := appendAll_cons_ok h
    obtain ⟨q, hq, hs, hc⟩ := append_wrote hf hp hopen (by rw [hv])
    rw [hv] at hq
    obtain rfl := (Prod.mk.inj hq).1
    obtain ⟨q', hq', hs', hc'⟩ := appendAll_wrote hf hs hc hrest
    exact ⟨q', hq', by rwa [List.map_cons, ← List.singleton_append, ← List.append_assoc], hc'⟩

/-- A writer takes records that can be written. -/
theorem appendAll_sound (hw : w.Ready) (hi : 0 < w.interval) : ∀ {rs taken : List Record} {p : State},
    w.Sound taken p → p.closed = false → (∀ r ∈ taken ++ rs.map w.snapshot, w.Writable r) →
      ∃ q, (w.inState p).appendAll rs = (w.inState q, none) ∧
        w.Sound (taken ++ rs.map w.snapshot) q ∧ q.closed = false
  | [], taken, p, hp, hopen, _ => ⟨p, rfl, by rwa [List.map_nil, List.append_nil], hopen⟩
  | r :: rest, taken, p, hp, hopen, h => by
    have hsplit : taken ++ (r :: rest).map w.snapshot =
        taken ++ [w.snapshot r] ++ rest.map w.snapshot := by
      rw [List.map_cons, List.append_assoc, List.singleton_append]
    rw [hsplit] at h ⊢
    obtain ⟨q, hq, hs, -, hc⟩ := append_sound hw hp hopen fun r hr =>
      h r (List.mem_append_left _ hr)
    obtain ⟨q', hq', hs', hc'⟩ := appendAll_sound hw hi hs hc h
    refine ⟨q', ?_, hs', hc'⟩
    rw [appendAll, hq]
    exact hq'

/-- **What is in the file of a writer that took some records and was closed**, neither with a failure:
these records, in order. If the file is no Avro file, the records have to suit the columns. -/
theorem encodes_of_appendAll {u v : Writer} {o : Option Defect} {rs : List Record}
    (hinit : w = w.inState {}) (hi : 0 < w.interval) (hc : w.columns ≠ []) (hn : w.columns.Nodup)
    (hkinds : ∀ r ∈ rs, w.KindsTake r) (happend : { w with obstacle := o }.appendAll rs = (u, none))
    (hclose : u.close = (v, none)) :
    o = none ∧ (w.format = .avro → Avro.Encodable w.schema (rs.map w.snapshot)) ∧
      ∃ c, v.file = some c ∧ w.Encodes (rs.map w.snapshot) c := by
  have ho : o = none := by
    by_contra hne
    have hstarted : w.started = false := by rw [hinit]; rfl
    have hclosed : w.closed = false := by rw [hinit]; rfl
    have hblocked : { w with obstacle := o }.Blocked := ⟨hne, hstarted, hclosed⟩
    exact (hblocked.appendAll happend).close (by rw [hclose])
  subst ho
  have hstart : { w with obstacle := none } = w.inState {} :=
    congrArg (fun w : Writer => { w with obstacle := none }) hinit
  have hsound : w.Sound [] {} := ⟨rfl, rfl, ⟨rfl, rfl⟩, nofun⟩
  rw [hstart] at happend
  refine ⟨rfl, ?_⟩
  by_cases hf : w.format = .avro
  · have hwrote : w.Wrote [] {} := ⟨hsound, fun r hr => absurd hr List.not_mem_nil⟩
    obtain ⟨q, rfl, hs, hopen⟩ := appendAll_wrote hf hwrote rfl happend
    obtain ⟨q', c, hq', hfile, hencodes, hencodable⟩ := close_wrote hf hs hopen (by rw [hclose])
    rw [hclose] at hq'
    obtain rfl := (Prod.mk.inj hq').1
    exact ⟨fun _ => hencodable, c, hfile, hencodes⟩
  · have hready : w.Ready := ⟨fun _ => hc, fun _ => hn, fun ha => absurd ha hf⟩
    have hwritable : ∀ r ∈ [] ++ rs.map w.snapshot, w.Writable r := by
      intro r hr
      obtain ⟨r', hr', rfl⟩ := List.mem_map.mp hr
      exact ⟨fun _ => kindsTake_snapshot (hkinds r' hr'), fun ha => absurd ha hf⟩
    obtain ⟨q, hq, hs, -⟩ := appendAll_sound hready hi hsound rfl hwritable
    rw [happend] at hq
    obtain rfl := (Prod.mk.inj hq).1
    obtain ⟨q', hq', hs', hclosed⟩ := close_sound hready hs hwritable
    rw [hclose] at hq'
    obtain rfl := (Prod.mk.inj hq').1
    exact ⟨fun ha => absurd ha hf, hs'.file_of_closed hclosed⟩

end Writer

/-! ## Filling and writing -/

section Loop

variable {σ : Type} [Source σ] {recipe : Recipe}

/-- **If no write fails, a run hands over the records that are filled**, and a failure is that of the
filling after them. -/
theorem produceFrom_eq : ∀ {left made : Nat} {f : Filling σ} {w u : Writer}, f.failure = none →
    w.appendAll (fillTimes recipe left f).1 = (u, none) →
      produceFrom recipe left made f w =
        (made + (fillTimes recipe left f).1.length, u, (fillTimes recipe left f).2.failure)
  | 0, made, f, w, u, hf, h => by
    cases h
    rw [fillTimes, hf]
    rfl
  | left + 1, made, f, w, u, hf, h => by
    simp only [produceFrom, fillTimes] at h ⊢
    cases hfill : (fill recipe f.record f.pool f.source).failure with
    | some e =>
      simp only [hfill] at h ⊢
      cases h
      rfl
    | none =>
      simp only [hfill] at h ⊢
      obtain ⟨v, hv, hrest⟩ := Writer.appendAll_cons_ok h
      rw [hv]
      dsimp only
      rw [produceFrom_eq hfill hrest, List.length_cons, Nat.add_assoc, Nat.add_comm 1]

/-- The records before a failure are filled without one when no more are asked for. -/
theorem fillTimes_finished : ∀ (count : Nat) {f : Filling σ}, f.failure = none →
    (fillTimes recipe (fillTimes recipe count f).1.length f).1 = (fillTimes recipe count f).1 ∧
      (fillTimes recipe (fillTimes recipe count f).1.length f).2.failure = none
  | 0, f, hf => ⟨rfl, hf⟩
  | count + 1, f, hf => by
    simp only [fillTimes]
    cases hfill : (fill recipe f.record f.pool f.source).failure with
    | some e => exact ⟨rfl, hf⟩
    | none =>
      obtain ⟨hrecords, hfailure⟩ := fillTimes_finished count hfill
      simp only [List.length_cons, fillTimes, hfill, hrecords]
      exact ⟨trivial, hfailure⟩

/-- A filling that fails is one of those that were asked for. -/
theorem length_lt_of_failure {e : Failure} : ∀ {count : Nat} {f : Filling σ}, f.failure = none →
    (fillTimes recipe count f).2.failure = some e → (fillTimes recipe count f).1.length < count
  | 0, f, hf, h => by
    rw [fillTimes, hf] at h
    cases h
  | count + 1, f, _, h => by
    simp only [fillTimes] at h ⊢
    cases hfill : (fill recipe f.record f.pool f.source).failure with
    | some e => exact Nat.succ_pos count
    | none =>
      simp only [hfill] at h ⊢
      exact Nat.succ_lt_succ (length_lt_of_failure hfill h)

end Loop

/-! ## Plans -/

section Plans

variable {σ : Type}

/-- What the records of a plan are filled from: nulls, its generators and its source. -/
def Plan.start (p : Plan σ) : Filling σ :=
  ⟨none, p.writer.columns.map fun c => (c, .null), p.pool, p.source⟩

/-- The writer of a plan, as it comes to be used once an old file is out of the way. -/
def Plan.opened (p : Plan σ) (cleared : Disk) : Writer :=
  { p.writer with obstacle := p.obstacle? cleared }

/-- A plan, but for another number of records. -/
def Plan.withTotal (p : Plan σ) (n : Int) : Plan σ := { p with total := n }

variable [Source σ]

/-- How filling the records of a plan ends. -/
def Plan.filled (p : Plan σ) : Except Failure Nat :=
  match (fillTimes p.pool.recipe p.total.toNat p.start).2.failure with
  | some e => .error e
  | none => .ok p.records.length

/-- After its first `k` records a plan fails: the next record cannot be filled. -/
structure Plan.FailsAfter (p : Plan σ) (k : Nat) (e : Failure) : Prop where
  /-- The loop over the records is entered. -/
  total : p.total ≤ Word.maxLong
  finished : p.records.length = k
  failure : (fillTimes p.pool.recipe p.total.toNat p.start).2.failure = some e

/-- No write of a plan fails: an old file can be removed, the records are written as they come, and what
is held at the end is written when the writer is closed. -/
def Plan.Writes (p : Plan σ) (disk : Disk) : Prop :=
  ∃ cleared u v, p.clear disk = .ok cleared ∧
    (p.opened cleared).appendAll p.records = (u, none) ∧ u.close = (v, none)

/-- Whether no write of a plan fails, found out by writing. -/
def Plan.writes (p : Plan σ) (disk : Disk) : Bool :=
  match p.clear disk with
  | .error _ => false
  | .ok cleared =>
    match (p.opened cleared).appendAll p.records with
    | (u, none) => u.close.2.isNone
    | (_, some _) => false

theorem Plan.writes_iff {p : Plan σ} {disk : Disk} : p.writes disk = true ↔ p.Writes disk := by
  unfold Plan.writes Plan.Writes
  constructor
  · intro h
    split at h
    · cases h
    · rename_i cleared hclear
      split at h
      · rename_i u happend
        have hclose : u.close = (u.close.1, none) := Prod.ext rfl (Option.isNone_iff_eq_none.mp h)
        exact ⟨cleared, u, u.close.1, hclear, happend, hclose⟩
      · cases h
  · rintro ⟨cleared, u, v, hclear, happend, hclose⟩
    simp only [hclear, happend, hclose, Option.isNone_none]

instance (p : Plan σ) (disk : Disk) : Decidable (p.Writes disk) :=
  decidable_of_iff _ Plan.writes_iff

/-- What a plan leads to once its records are produced. -/
theorem execute_of_produce {p : Plan σ} {disk cleared : Disk} {result : Except Failure Nat} {v : Writer}
    (hclear : p.clear disk = .ok cleared)
    (hproduce : produce p.pool p.source p.total (p.opened cleared) = (result, v)) (s : Session) :
    (p.execute disk s).result = result ∧
      (p.execute disk s).disk = match v.file with
        | some c => cleared.write p.output c
        | none => cleared := by
  unfold Plan.execute
  unfold Plan.opened at hproduce
  rw [hclear]
  dsimp only
  rw [hproduce]
  cases result <;> exact ⟨rfl, rfl⟩

/-- If no write fails, producing the records of a plan leaves the writer that took them, closed, and
ends as filling them does. -/
theorem produce_of_writes {p : Plan σ} {cleared : Disk} {u v : Writer}
    (htotal : p.total ≤ Word.maxLong) (happend : (p.opened cleared).appendAll p.records = (u, none))
    (hclose : u.close = (v, none)) :
    produce p.pool p.source p.total (p.opened cleared) = (p.filled, v) := by
  have hall : produceAll p.pool p.source p.total (p.opened cleared) =
      (0 + p.records.length, u, (fillTimes p.pool.recipe p.total.toNat p.start).2.failure) := by
    unfold produceAll
    rw [if_neg (Int.not_lt.mpr htotal)]
    exact produceFrom_eq (f := p.start) rfl happend
  unfold produce Plan.filled
  rw [hall, Nat.zero_add]
  dsimp only
  rw [hclose]
  cases (fillTimes p.pool.recipe p.total.toNat p.start).2.failure <;> rfl

/-- The plan for just the records before a failure fills them, and without one. -/
theorem records_of_failsAfter {p : Plan σ} {k : Nat} {e : Failure} (h : p.FailsAfter k e) :
    p.filled = .error e ∧ (p.withTotal k).total ≤ Word.maxLong ∧
      (p.withTotal k).records = p.records ∧ (p.withTotal k).filled = .ok k := by
  obtain ⟨htotal, rfl, hfailure⟩ := h
  have hlt : p.records.length < p.total.toNat := length_lt_of_failure rfl hfailure
  obtain ⟨hrecords, hnone⟩ : (p.withTotal p.records.length).records = p.records ∧
      (fillTimes (p.withTotal p.records.length).pool.recipe (p.withTotal p.records.length).total.toNat
        (p.withTotal p.records.length).start).2.failure = none :=
    fillTimes_finished p.total.toNat rfl
  refine ⟨by rw [Plan.filled, hfailure], ?_, hrecords, by rw [Plan.filled, hnone, hrecords]⟩
  show (p.records.length : Int) ≤ Word.maxLong
  omega

/-- **A plan that fails midway leaves the files of the plan for just the finished records.** -/
theorem execute_of_failsAfter {p : Plan σ} {disk : Disk} {k : Nat} {e : Failure}
    (hfails : p.FailsAfter k e) (hwrites : p.Writes disk) (s t : Session) :
    (p.execute disk s).result = .error e ∧ ((p.withTotal k).execute disk t).result = .ok k ∧
      ((p.withTotal k).execute disk t).disk = (p.execute disk s).disk := by
  obtain ⟨cleared, u, v, hclear, happend, hclose⟩ := hwrites
  obtain ⟨hfilled, hk, hrecords, hshort⟩ := records_of_failsAfter hfails
  have hproduce := produce_of_writes hfails.total happend hclose
  have happend' : ((p.withTotal k).opened cleared).appendAll (p.withTotal k).records = (u, none) := by
    rw [hrecords]
    exact happend
  have hproduce' := produce_of_writes hk happend' hclose
  rw [hfilled] at hproduce
  rw [hshort] at hproduce'
  obtain ⟨hresult, hdisk⟩ := execute_of_produce hclear hproduce s
  obtain ⟨hresult', hdisk'⟩ := execute_of_produce (p := p.withTotal k) hclear hproduce' t
  exact ⟨hresult, hresult', hdisk'.trans hdisk.symm⟩

end Plans

/-! ## What a plan comes from -/

open Dialog

/-- A column of a field's kind takes the values of the field. -/
theorem takes_of_holds {d : Descriptor} {v : Value} (h : d.Holds v) : d.kind.Takes v := by
  obtain ⟨name, kind, symbols, members, nullable⟩ := d
  cases kind with
  | int | long =>
    cases v with
    | int n => exact h
    | _ => exact h.elim
  | float | double =>
    cases v with
    | float x => trivial
    | _ => exact h.elim
  | string | enum =>
    cases v with
    | text s => trivial
    | _ => exact h.elim
  | _ => cases v <;> exact h.elim

theorem format_of_create {format : Format} {columns : List String} {interval : Nat}
    {kinds : Ledger String Kind} {schema : Option Document} {dialect : Csv.Dialect} {w : Writer}
    (h : Writer.create format columns interval kinds schema dialect = .ok w) :
    w.format = format ∧ w.kinds = kinds := by
  unfold Writer.create at h
  split at h
  · split at h
    · cases h
    · obtain ⟨s, -, rfl⟩ := map_eq_ok.mp h
      exact ⟨rfl, rfl⟩
  · cases h
    exact ⟨rfl, rfl⟩

section Prepared

variable {σ : Type} {q : Request σ} {disk : Disk} {output : Path} {p : Plan σ} {s t : Session}

/-- What is true of a plan, whatever its format: its writer is new and has the columns of a schema, and
each column has a generator that gives values of its kind, or nulls. -/
structure Plan.Proper (p : Plan σ) : Prop where
  fresh : p.writer = p.writer.inState {}
  interval : 0 < p.writer.interval
  distinct : p.writer.columns.Nodup
  generated : ∀ name ∈ Ledger.keys p.pool, name ∈ p.writer.columns
  suited : ∀ name ∈ p.writer.columns, ∃ d odds, Pool.SuitsAt p.pool name d odds ∧
    Ledger.get? p.writer.kinds name = some d.kind

theorem proper_of_prepare (h : (q.prepare disk).run s = (.ok (output, some p), t)) :
    p.output = output ∧ p.Proper := by
  obtain ⟨u, hplan⟩ := Request.prepare_ok h
  obtain ⟨loader, c, s₁, s₂, hloader, hc, hwriter, houtput, hpool⟩ := Request.plan_ok hplan
  obtain ⟨d, -, hload⟩ := load_of_ofFile hloader
  have hnodup : loader.names.Nodup := by
    have hdone := Schema.names_nodup_of_load (by rw [hload] : (Schema.Loader.load {} d).2 = none)
    rwa [hload] at hdone
  obtain ⟨hcolumns, hinterval, hinit, -⟩ := Writer.create_eq hwriter
  refine ⟨houtput, hinit, ?_, ?_, ?_, ?_⟩
  · rw [hinterval]
    exact q.options.interval_pos
  · rw [hcolumns]
    exact hnodup
  · intro name hname
    rw [hpool] at hname
    rw [hcolumns]
    exact (keys_of_configureFields hc name hname).resolve_left List.not_mem_nil
  · intro name hname
    rw [hcolumns] at hname
    obtain ⟨d, hd, rfl⟩ := List.mem_map.mp hname
    obtain ⟨before, after, hsplit⟩ := List.append_of_mem hd
    rw [Schema.Loader.names, hsplit, List.map_append, List.map_cons, List.nodup_append,
      List.nodup_cons] at hnodup
    rw [hsplit] at hc
    obtain ⟨c₁, s₁, r, s₂, -, hr, hg, hk⟩ := configureFields_settled hnodup.2.1.1 hc
    rw [hpool, (format_of_create hwriter).2]
    exact ⟨r.leaf, r.odds, ⟨r.generator, hg, suits_of_resolution (resolve_ok hr)⟩, hk⟩

variable [Source σ]

/-- **The records of a plan suit the columns of its writer**, and these are all that they have. -/
theorem Plan.Proper.records (hp : p.Proper) :
    (∀ r ∈ p.records, p.writer.KindsTake r) ∧ p.records.map p.writer.snapshot = p.records := by
  constructor
  · intro r hr name hname
    obtain ⟨d, odds, hsuits, hk⟩ := hp.suited name hname
    have hrecipe : name ∈ (Pool.recipe p.pool).map Prod.fst := by
      obtain ⟨g, hg, -⟩ := hsuits
      rw [Pool.recipe, List.map_map]
      exact List.mem_map.mpr ⟨name, mem_keys_of_get? hg, rfl⟩
    obtain ⟨v, hv, hconforms⟩ := fillTimes_conforms (f := p.start) own_of_mem_recipe hrecipe hsuits r hr
    refine ⟨d.kind, hk, ?_⟩
    rw [Writer.valueIn, hv]
    rcases hconforms with hholds | ⟨rfl, -⟩
    · exact takes_of_holds hholds
    · cases d.kind <;> trivial
  · refine (List.map_congr_left fun r hr => ?_).trans (List.map_id _)
    exact Writer.snapshot_eq hp.distinct (keys_of_mem_records hp.generated hr)

/-- Records of a plan that could be encoded can be read again. -/
theorem readable_of_prepare (h : (q.prepare disk).run s = (.ok (output, some p), t))
    (hencodable : p.writer.format = .avro → Avro.Encodable p.writer.schema p.records) :
    p.writer.Readable p.records := by
  obtain ⟨-, hp⟩ := proper_of_prepare h
  refine ⟨fun _ => hp.records.1, fun hf => ⟨hencodable hf, ?_⟩⟩
  obtain ⟨u, hplan⟩ := Request.prepare_ok h
  obtain ⟨loader, c, s₁, s₂, -, -, hwriter, -, -⟩ := Request.plan_ok hplan
  obtain ⟨-, -, -, -, -, d, fields, hd, hfields, hnames⟩ :=
    schema_of_plan ((format_of_create hwriter).1.symm.trans hf) h
  exact ⟨d, fields, hd, hfields, fields_of_keys (fun r hr => keys_of_mem_records hp.generated hr) hnames⟩

end Prepared

/-! ## Another number of records -/

section Totals

variable {σ : Type} {q : Request σ} {disk : Disk} {output : Path} {p : Plan σ} {s t : Session}

/-- A run that is told how many records to make, and so does not ask. -/
def Request.withTotal (q : Request σ) (n : Int) : Request σ := { q with total := some n }

/-- **A plan for another number of records** comes of the same answers without those to the question for
the number. -/
theorem prepare_withTotal (h : (q.prepare disk).run s = (.ok (output, some p), t)) (n : Int) :
    ∃ first counted later said said', s.answers = first ++ (counted ++ later) ∧
      (Request.askReplace disk output).run ⟨s.answers, []⟩ = (.ok true, ⟨counted ++ later, said⟩) ∧
      q.askTotal.run ⟨counted ++ later, said⟩ = (.ok p.total, ⟨later, said'⟩) ∧
      ∀ events, ∃ u, ((q.withTotal n).prepare disk).run ⟨first ++ later, events⟩ =
        (.ok (output, some (p.withTotal n)), u) := by
  obtain ⟨loader, c, s₁, s₂, hpath, hchecked, hgo, hloader, htotal, hsource, hsettle, hwriter, hplan⟩ :=
    Request.prepare_iff.mp h
  -- three dialogs use answers up: about an old file, about the number, and about the fields
  have htalk : Request.settle loader.fields = (Prod.fst <$> inquireFields {} loader.fields).run := by
    rw [Request.settle_eq, Talk.run_map]
  rw [← Request.run_inquireReplace] at hgo ⊢
  rw [← Request.run_inquireTotal] at htotal ⊢
  rw [htalk] at hsettle
  obtain ⟨first, hfirst, hgo⟩ := Talk.run_rest hgo
  obtain ⟨counted, hcounted, htotal⟩ := Talk.run_rest htotal
  obtain ⟨fields, hfields, hsettle⟩ := Talk.run_rest hsettle
  obtain ⟨said, hsaid⟩ := hgo s₁.answers []
  obtain ⟨said', hsaid'⟩ := htotal s₂.answers said
  refine ⟨first, counted, s₂.answers, said, said', by rw [hfirst, hcounted], ?_, hsaid',
    fun events => ?_⟩
  · rw [hfirst, hsaid, hcounted]
  obtain ⟨events₁, hgo⟩ := hgo s₂.answers events
  obtain ⟨events₂, hsettle⟩ := hsettle t.answers events₁
  rw [← hfields, ← htalk] at hsettle
  rw [Request.run_inquireReplace] at hgo
  refine ⟨_, Request.prepare_iff.mpr ⟨loader, c, _, _, hpath, hchecked, hgo, hloader, rfl, hsource,
    hsettle, hwriter, ?_⟩⟩
  rw [hplan]
  rfl

end Totals

/-! ## Runs -/

variable {σ : Type} [Source σ] {q : Request σ} {disk : Disk} {output : Path} {p : Plan σ}
  {s t : Session}

theorem run_of_prepare (h : (q.prepare disk).run s = (.ok (output, some p), t)) :
    q.run disk s = p.execute disk t := by
  unfold Request.run
  rw [h]

/-- What a plan that fails midway leaves in its file. -/
theorem file_of_failsAfter {k : Nat} {e : Failure} (hp : (q.prepare disk).run s = (.ok (output, some p), t))
    (hfails : p.FailsAfter k e) (hcolumns : p.writer.columns ≠ []) (hwrites : p.Writes disk) :
    ∃ c, (p.execute disk t).disk.content? p.output = some c ∧ p.writer.Holds p.records c := by
  obtain ⟨-, hproper⟩ := proper_of_prepare hp
  obtain ⟨cleared, u, v, hclear, happend, hclose⟩ := hwrites
  obtain ⟨hkinds, hsnapshot⟩ := hproper.records
  obtain ⟨ho, hencodable, c, hfile, hencodes⟩ :=
    Writer.encodes_of_appendAll hproper.fresh hproper.interval hcolumns hproper.distinct hkinds happend hclose
  rw [hsnapshot] at hencodable hencodes
  obtain ⟨-, hdisk⟩ := execute_of_produce hclear (produce_of_writes hfails.total happend hclose) t
  have hobstacle : cleared.obstacle? p.output = none := by
    unfold Plan.obstacle? at ho
    split at ho
    · cases ho
    · exact ho
  refine ⟨c, ?_, hencodes.holds (readable_of_prepare hp hencodable)⟩
  rw [hdisk, hfile]
  exact Disk.content?_write hobstacle

/-- **A run that fails midway keeps exactly the finished records.** Take a run that has made a plan, with
at least one column, whose record number `k`, counted from zero, cannot be filled, while no write fails.
The run ends with that failure. The output file holds the first `k` records in order, and nothing of the
one that failed: the header alone if there are none. A run that is told to make `k` records, with the same
answers but for those to the question for the number, if that was asked, succeeds with the same files. -/
theorem file_of_interrupted_run {k : Nat} {e : Failure}
    (hp : (q.prepare disk).run s = (.ok (output, some p), t)) (hfails : p.FailsAfter k e)
    (hcolumns : p.writer.columns ≠ []) (hwrites : p.Writes disk) :
    (q.run disk s).result = .error e ∧
    (∃ c, (q.run disk s).disk.content? output = some c ∧ p.writer.Holds p.records c) ∧
    ∃ first counted later said said', s.answers = first ++ (counted ++ later) ∧
      (Request.askReplace disk output).run ⟨s.answers, []⟩ = (.ok true, ⟨counted ++ later, said⟩) ∧
      q.askTotal.run ⟨counted ++ later, said⟩ = (.ok p.total, ⟨later, said'⟩) ∧
      ∀ events, ((q.withTotal k).run disk ⟨first ++ later, events⟩).result = .ok k ∧
        ((q.withTotal k).run disk ⟨first ++ later, events⟩).disk = (q.run disk s).disk := by
  obtain ⟨rfl, -⟩ := proper_of_prepare hp
  obtain ⟨first, counted, later, said, said', hanswers, hreplace, htotal, hshort⟩ :=
    prepare_withTotal hp k
  rw [run_of_prepare hp]
  refine ⟨(execute_of_failsAfter hfails hwrites t t).1,
    file_of_failsAfter hp hfails hcolumns hwrites,
    first, counted, later, said, said', hanswers, hreplace, htotal, fun events => ?_⟩
  obtain ⟨u, hu⟩ := hshort events
  rw [run_of_prepare hu]
  exact (execute_of_failsAfter hfails hwrites t u).2

/-- The schema of a record of one number. -/
def ticketSchema : String :=
  "\x7b\"type\": \"record\", \"name\": \"Ticket\", \"fields\": [" ++
    "\x7b\"name\": \"seat\", \"type\": \"int\"\x7d]\x7d"

/-- A run that writes two records at a time. -/
def ticketRequest : Request Script where
  schema := ⟨"", ["ticket.avsc"]⟩
  options := { format := .csv, interval := 2 }
  source := .ok {}

/-- The files before the run. -/
def ticketDisk : Disk :=
  ⟨[⟨"", []⟩], [(⟨"", ["ticket.avsc"]⟩, .text ticketSchema), (⟨"", ["ticket.csv"]⟩, .text "seat\n7\n")]⟩

/-- The answers of the run. The numbers go on from the third last one of the field. -/
def ticketAnswers : Session := { answers := ["y", "many", "5", "incr from 2147483645"] }

/-- The records that the answers leave room for. -/
def ticketRecords : List Record :=
  [[("seat", .int 2147483645)], [("seat", .int 2147483646)], [("seat", .int 2147483647)]]

/-- The file of these records. -/
def ticketFile : Content := .text "seat\n2147483645\n2147483646\n2147483647\n"

/-- Whether the plan for the tickets comes to a number that does not fit. -/
def Plan.runsOut (p : Plan Script) : Bool :=
  p.total == 5 && p.records == ticketRecords &&
    match (fillTimes p.pool.recipe p.total.toNat p.start).2.failure with
    | some (.misfit 2147483648) => true
    | _ => false

/-- Of five tickets three are made, and the old file is gone. -/
theorem file_of_interrupted_run_tickets : ∃ p : Plan Script,
    (ticketRequest.run ticketDisk ticketAnswers).result = .error (.misfit 2147483648) ∧
    (ticketRequest.run ticketDisk ticketAnswers).disk.content? ⟨"", ["ticket.csv"]⟩ = some ticketFile ∧
    p.writer.Holds ticketRecords ticketFile ∧
    ((ticketRequest.withTotal 3).run ticketDisk { answers := ["y", "incr from 2147483645"] }).disk =
      (ticketRequest.run ticketDisk ticketAnswers).disk := by
  have hplan : ((ticketRequest.prepare ticketDisk).run ticketAnswers).1.toOption.any (fun x =>
      x.1 == ⟨"", ["ticket.csv"]⟩ && x.2.any fun p =>
        p.writer.columns == ["seat"] && p.runsOut && decide (p.Writes ticketDisk)) = true := by decide +kernel
  have hfile : (ticketRequest.run ticketDisk ticketAnswers).disk.content? ⟨"", ["ticket.csv"]⟩ = some ticketFile := by
    decide +kernel
  rcases hp : (ticketRequest.prepare ticketDisk).run ticketAnswers with ⟨e | ⟨output, _ | p⟩, t⟩
  · rw [hp] at hplan
    cases hplan
  · rw [hp] at hplan
    rw [Except.toOption, Option.any_some, Option.any_none, Bool.and_false] at hplan
    cases hplan
  · rw [hp] at hplan
    rw [Except.toOption, Option.any_some, Option.any_some, Bool.and_eq_true, Bool.and_eq_true,
      Bool.and_eq_true, beq_iff_eq, beq_iff_eq] at hplan
    obtain ⟨rfl, ⟨hcolumns, hrunsOut⟩, hwrites⟩ := hplan
    rw [Plan.runsOut, Bool.and_eq_true, Bool.and_eq_true, beq_iff_eq, beq_iff_eq] at hrunsOut
    obtain ⟨⟨htotal, hrecords⟩, hmatch⟩ := hrunsOut
    have hfailure : (fillTimes p.pool.recipe p.total.toNat p.start).2.failure =
        some (.misfit 2147483648) := by
      split at hmatch
      · assumption
      · cases hmatch
    have hfails : p.FailsAfter 3 (.misfit 2147483648) :=
      ⟨by rw [htotal]; decide, by rw [hrecords]; rfl, hfailure⟩
    obtain ⟨hresult, ⟨c, hc, hholds⟩, first, counted, later, said, said', hanswers, hreplace, hcount,
      hshort⟩ := file_of_interrupted_run hp hfails (by rw [hcolumns]; exact List.cons_ne_nil _ _)
        (of_decide_eq_true hwrites)
    rw [hrecords] at hholds
    have hasked : counted ++ later = ["many", "5", "incr from 2147483645"] :=
      (congrArg (fun x => x.2.answers) hreplace).symm
    rw [hasked] at hcount hanswers
    have hlater : later = ["incr from 2147483645"] := (congrArg (fun x => x.2.answers) hcount).symm
    have hfirst : ["y"] = first := List.append_cancel_right hanswers
    have hdisk := (hshort []).2
    rw [← hfirst, hlater] at hdisk
    obtain rfl : c = ticketFile := Option.some.inj (hc.symm.trans hfile)
    exact ⟨p, hresult, hfile, hholds, hdisk⟩

end RecordForge
