import RecordForge.Program.Run
import RecordForge.Proofs.Scripts

/-!
# The records of a run

A run fills one record again and again and hands each filling to its writer. When it succeeds, nothing
kept its file from being written; and if the file is an Avro file, it holds the records as they were
filled, and all of them could be encoded.

* `Writer.Wrote`: a writer is sound, and what it has written could be encoded.
* `append_wrote`, `close_wrote`: operations that succeed keep it so.
* `produceFrom_wrote`: so does the whole loop over the records.
* `Plan.records`: the records of a plan.
* **`file_of_execute`**: the file of a plan that was carried out has what is written of its records.
-/

namespace RecordForge

namespace Writer

variable {w : Writer} {taken rs : List Record} {p : Writer.State}

/-! ## Operations that succeed -/

/-- A writer is sound, and what it has written could be encoded. -/
structure Wrote (w : Writer) (taken : List Record) (p : State) : Prop where
  sound : w.Sound taken p
  encodable : Avro.Encodable w.schema (taken.take p.written)

/-- An Avro file to which records were written could take them. -/
theorem writable_of_write (hf : w.format = .avro) (h : ((w.inState p).write rs).2 = none) :
    w.Ready ∧ ∀ r ∈ rs, w.Writable r := by
  have hafter : ((w.inState p).avroAfter rs).2 = none := by
    have hfile : (w.inState p).fileAfter rs = (w.inState p).avroAfter rs := by
      unfold fileAfter
      split
      · rfl
      · rename_i hcsv
        exact absurd (hf.symm.trans hcsv) nofun
      · rename_i hparquet
        exact absurd (hf.symm.trans hparquet) nofun
    rw [← hfile]
    exact h
  unfold avroAfter at hafter
  split at hafter
  · cases hafter
  · rename_i hobstacle
    have henc := Avro.encodable_of_blocksOf hafter
    refine ⟨⟨fun hne => absurd hf hne, fun hp => ?_, fun _ => hobstacle⟩, fun r hr => ?_⟩
    · exact absurd (hf.symm.trans hp) nofun
    · exact ⟨fun hne => absurd hf hne, fun _ => henc r hr⟩

/-- A flush that succeeds has written all that was taken. -/
theorem flush_wrote (hf : w.format = .avro) (hp : w.Wrote taken p)
    (h : ((w.inState p).flush).2 = none) :
    ∃ q, (w.inState p).flush = (w.inState q, none) ∧ w.Wrote taken q ∧ q.pending = [] ∧
      q.closed = p.closed := by
  by_cases hempty : p.pending = []
  · refine ⟨p, ?_, hp, hempty, rfl⟩
    have hnone : (w.inState p).pending.isEmpty = true := by
      show p.pending.isEmpty = true
      rw [hempty]
      rfl
    rw [flush, if_pos hnone]
  · have hwrite : ((w.inState p).write p.pending).2 = none := by
      have hsome : (w.inState p).pending.isEmpty = false := by
        show p.pending.isEmpty = false
        rw [List.isEmpty_eq_false_iff]
        exact hempty
      rw [flush, hsome] at h
      rcases hw : (w.inState p).write p.pending with ⟨v, _ | e⟩
      · rfl
      · have hpending : (w.inState p).pending = p.pending := rfl
        rw [hpending, hw] at h
        cases h
    obtain ⟨hready, hwritable⟩ := writable_of_write hf hwrite
    obtain ⟨q, hq, hs, he, hc⟩ := flush_sound hready hp.sound hwritable
    refine ⟨q, hq, ⟨hs, fun r hr => ?_⟩, he, hc⟩
    have hmem : r ∈ taken := List.mem_of_mem_take hr
    rw [hp.sound.pending] at hmem
    rcases List.mem_append.mp hmem with hmem | hmem
    · exact hp.encodable r hmem
    · exact (hwritable r hmem).encodes hf

/-- A record that is taken is held, and written once there are enough. -/
theorem append_wrote (hf : w.format = .avro) (hp : w.Wrote taken p) (hopen : p.closed = false)
    {r : Record} (h : ((w.inState p).append r).2 = none) :
    ∃ q, (w.inState p).append r = (w.inState q, none) ∧ w.Wrote (taken ++ [w.snapshot r]) q ∧
      q.closed = false := by
  have hle : p.written ≤ taken.length := by
    rw [← hp.sound.written]
    exact Nat.le_add_right _ _
  have hheld : w.Wrote (taken ++ [w.snapshot r]) { p with pending := p.pending ++ [w.snapshot r] } := by
    refine ⟨hold_sound hp.sound hopen r, ?_⟩
    show Avro.Encodable w.schema ((taken ++ [w.snapshot r]).take p.written)
    rw [List.take_append_of_le_length hle]
    exact hp.encodable
  rw [append_inState] at h ⊢
  by_cases hfull : w.interval ≤ (p.pending ++ [w.snapshot r]).length
  · rw [if_pos hfull] at h ⊢
    obtain ⟨q, hq, hs, -, hc⟩ := flush_wrote hf hheld h
    exact ⟨q, hq, hs, hc.trans hopen⟩
  · rw [if_neg hfull]
    exact ⟨_, rfl, hheld, hopen⟩

/-- A writer that was closed has a file of all that was taken. -/
theorem close_wrote (hf : w.format = .avro) (hp : w.Wrote taken p) (hopen : p.closed = false)
    (h : ((w.inState p).close).2 = none) :
    ∃ q c, (w.inState p).close = (w.inState q, none) ∧ q.file = some c ∧ w.Encodes taken c ∧
      Avro.Encodable w.schema taken := by
  have hneg : ¬(w.inState p).closed = true := ne_true_of_eq_false hopen
  have hflush : ((w.inState p).flush).2 = none := by
    unfold close at h
    rw [if_neg hneg] at h
    rcases hw : (w.inState p).flush with ⟨v, _ | e⟩
    · rfl
    · rw [hw] at h
      cases h
  obtain ⟨q, hq, hs, he, hc⟩ := flush_wrote hf hp hflush
  have hall : taken.take q.written = taken := by
    have hpending := hs.sound.pending
    rw [he, List.append_nil] at hpending
    exact hpending.symm
  have hencodable : Avro.Encodable w.schema taken := by
    rw [← hall]
    exact hs.encodable
  have hready : q.started = false → w.Ready := by
    intro hst
    have hwrite : ((w.inState q).write []).2 = none := by
      unfold close at h
      rw [if_neg hneg, hq] at h
      have hst' : (w.inState q).started = false := hst
      dsimp only at h
      rw [hst'] at h
      rcases hw : (w.inState q).write [] with ⟨v, _ | e⟩
      · rfl
      · rw [hw] at h
        cases h
    exact (writable_of_write hf hwrite).1
  obtain ⟨q', hq', hs', hc'⟩ := close_of_flush hready hopen hq hs.sound he
  obtain ⟨c, hfile, hencodes⟩ := hs'.file_of_closed hc'
  exact ⟨q', c, hq', hfile, hencodes, hencodable⟩

/-! ## Files that cannot be written -/

/-- A writer whose file cannot be written has not written to it. -/
structure Blocked (w : Writer) : Prop where
  obstacle : w.obstacle ≠ none
  started : w.started = false
  closed : w.closed = false

theorem Blocked.write (h : w.Blocked) (rs : List Record) : ∃ e, w.write rs = (w, some e) := by
  unfold Writer.write
  cases ho : w.obstacle with
  | none => exact absurd ho h.obstacle
  | some d => exact ⟨_, rfl⟩

theorem Blocked.flush (h : w.Blocked) : w.flush.1.Blocked := by
  unfold Writer.flush
  split
  · exact h
  · obtain ⟨e, he⟩ := h.write w.pending
    rw [he]
    exact h

theorem Blocked.append (h : w.Blocked) (r : Record) : (w.append r).1.Blocked := by
  have hheld : { w with pending := w.pending ++ [w.snapshot r] }.Blocked :=
    ⟨h.obstacle, h.started, h.closed⟩
  unfold Writer.append
  dsimp only
  split
  · exact hheld.flush
  · exact hheld

/-- A writer whose file cannot be written cannot be closed. -/
theorem Blocked.close (h : w.Blocked) : w.close.2 ≠ none := by
  have hflush := h.flush
  unfold Writer.close
  rw [if_neg (ne_true_of_eq_false h.closed)]
  rcases hw : w.flush with ⟨v, _ | e⟩
  · rw [hw] at hflush
    obtain ⟨e, he⟩ := Blocked.write hflush []
    have hst : v.started = false := hflush.started
    dsimp only
    rw [hst, he]
    nofun
  · nofun

end Writer

/-! ## The loop over the records -/

section Loop

variable {σ : Type} [Source σ] {recipe : Recipe} {w : Writer}

theorem produceFrom_blocked : ∀ {left made : Nat} {f : Filling σ} {w : Writer}, w.Blocked →
    (produceFrom recipe left made f w).2.1.Blocked
  | 0, _, _, _, h => h
  | left + 1, made, f, w, h => by
    simp only [produceFrom]
    split
    · exact h
    · have happend := h.append (fill recipe f.record f.pool f.source).record
      split
      · rename_i v hv
        rw [hv] at happend
        exact produceFrom_blocked happend
      · rename_i v e hv
        rw [hv] at happend
        exact happend

/-- **Records that are handed to a writer without a failure are written or held.** -/
theorem produceFrom_wrote (hf : w.format = .avro) : ∀ {left made : Nat} {f : Filling σ}
    {taken : List Record} {p : Writer.State}, w.Wrote taken p → p.closed = false →
      (produceFrom recipe left made f (w.inState p)).2.2 = none →
        ∃ q, produceFrom recipe left made f (w.inState p) = (made + left, w.inState q, none) ∧
          w.Wrote (taken ++ (fillTimes recipe left f).1.map w.snapshot) q ∧ q.closed = false ∧
          (fillTimes recipe left f).1.length = left
  | 0, made, f, taken, p, hp, hopen, _ =>
    ⟨p, rfl, by rwa [fillTimes, List.map_nil, List.append_nil], hopen, rfl⟩
  | left + 1, made, f, taken, p, hp, hopen, h => by
    simp only [produceFrom, fillTimes] at h ⊢
    cases hfill : (fill recipe f.record f.pool f.source).failure with
    | some e =>
      rw [hfill] at h
      cases h
    | none =>
      simp only [hfill] at h ⊢
      have happend : ((w.inState p).append (fill recipe f.record f.pool f.source).record).2 = none := by
        rcases ha : (w.inState p).append (fill recipe f.record f.pool f.source).record with ⟨v, _ | e⟩
        · rfl
        · rw [ha] at h
          cases h
      obtain ⟨q, hq, hs, hc⟩ := Writer.append_wrote hf hp hopen happend
      rw [hq] at h ⊢
      dsimp only at h ⊢
      obtain ⟨q', hq', hs', hc', hlength⟩ := produceFrom_wrote hf hs hc h
      refine ⟨q', ?_, ?_, hc', ?_⟩
      · rw [hq', Nat.add_assoc, Nat.add_comm 1]
      · rwa [List.map_cons, ← List.singleton_append, ← List.append_assoc]
      · rw [List.length_cons, hlength]

end Loop

/-! ## Plans -/

variable {σ : Type} [Source σ]

/-- The records of a plan, as they are filled one after the other. -/
def Plan.records (p : Plan σ) : List Record :=
  (fillTimes p.pool.recipe p.total.toNat
    ⟨none, p.writer.columns.map fun c => (c, .null), p.pool, p.source⟩).1

/-- Records that were produced without a failure are the records of the plan, all of them. -/
theorem produceFrom_of_produce {p : Plan σ} {w v : Writer} {n : Nat}
    (hc : w.columns = p.writer.columns) (h : produce p.pool p.source p.total w = (.ok n, v)) :
    ∃ u, produceFrom p.pool.recipe p.total.toNat 0
        ⟨none, p.writer.columns.map fun c => (c, .null), p.pool, p.source⟩ w = (n, u, none) ∧
      u.close = (v, none) := by
  unfold produce at h
  rcases hall : produceAll p.pool p.source p.total w with ⟨made, u, failure⟩
  rw [hall] at h
  dsimp only at h
  rcases hclose : u.close with ⟨v', _ | e⟩
  · rw [hclose] at h
    cases failure with
    | some e => cases h
    | none =>
      cases h
      unfold produceAll at hall
      split at hall
      · cases hall
      · rw [← hc]
        exact ⟨u, hall, hclose⟩
  · rw [hclose] at h
    cases h

theorem file_of_produce {p : Plan σ} {o : Option Defect} {n : Nat} {v : Writer}
    (hf : p.writer.format = .avro) (hinit : p.writer = p.writer.inState {})
    (h : produce p.pool p.source p.total { p.writer with obstacle := o } = (.ok n, v)) :
    o = none ∧ n = p.records.length ∧ ∃ c, v.file = some c ∧
      p.writer.Encodes (p.records.map p.writer.snapshot) c ∧
      Avro.Encodable p.writer.schema (p.records.map p.writer.snapshot) := by
  obtain ⟨u, hfrom, hclose⟩ := produceFrom_of_produce (p := p) (w := { p.writer with obstacle := o }) rfl h
  have ho : o = none := by
    by_contra hne
    have hstarted : p.writer.started = false := by rw [hinit]; rfl
    have hclosed : p.writer.closed = false := by rw [hinit]; rfl
    have hblocked : { p.writer with obstacle := o }.Blocked := ⟨hne, hstarted, hclosed⟩
    have hu := @produceFrom_blocked _ _ p.pool.recipe p.total.toNat 0
      ⟨none, p.writer.columns.map fun c => (c, .null), p.pool, p.source⟩ _ hblocked
    rw [hfrom] at hu
    exact hu.close (by rw [hclose])
  subst ho
  have hstart : { p.writer with obstacle := none } = p.writer.inState {} :=
    congrArg (fun w : Writer => { w with obstacle := none }) hinit
  have hwrote : p.writer.Wrote [] {} :=
    ⟨⟨rfl, rfl, ⟨rfl, rfl⟩, nofun⟩, fun r hr => absurd hr List.not_mem_nil⟩
  rw [hstart] at hfrom
  obtain ⟨q, hq, hs, hopen, hlength⟩ := produceFrom_wrote hf hwrote rfl (by rw [hfrom])
  rw [hfrom] at hq
  cases hq
  rw [List.nil_append] at hs
  obtain ⟨q', c, hq', hfile, hencodes, hencodable⟩ := Writer.close_wrote hf hs hopen (by rw [hclose])
  rw [hclose] at hq'
  cases hq'
  refine ⟨rfl, ?_, c, hfile, hencodes, hencodable⟩
  rw [Plan.records, hlength, Nat.zero_add]

/-! ## Files of plans -/

/-- What a path holds, if it is a file. -/
def Disk.content? (d : Disk) (p : Path) : Option Content :=
  match d.settle p with
  | .ok p => Ledger.get? d.files p
  | .error _ => none

theorem Disk.hasDirectory_set {d : Disk} {p q : Path} {c : Content} (h : d.hasDirectory q = true) :
    { d with files := Ledger.set d.files p c }.hasDirectory q = true := by
  unfold hasDirectory at h ⊢
  rw [Bool.or_eq_true] at h ⊢
  rcases h with h | h
  · exact Or.inl h
  · refine Or.inr ?_
    obtain ⟨⟨f, c'⟩, hf, hwithin⟩ := List.any_eq_true.mp h
    have hkey : f ∈ Ledger.keys (Ledger.set d.files p c) := by
      have hkey : f ∈ Ledger.keys d.files := List.mem_map.mpr ⟨_, hf, rfl⟩
      rw [Ledger.keys_set]
      split
      · exact hkey
      · exact List.mem_append_left _ hkey
    obtain ⟨e, he, rfl⟩ := List.mem_map.mp hkey
    exact List.any_eq_true.mpr ⟨e, he, hwithin⟩

/-- A path is followed alike when no directory is lost. -/
theorem Disk.settleFrom_mono {d d' : Disk} (h : ∀ q, d.hasDirectory q = true → d'.hasDirectory q = true)
    {r : Path} : ∀ {parts : List String} {q : Path}, d.settleFrom q parts = .ok r →
      d'.settleFrom q parts = .ok r
  | [], _, hr => hr
  | name :: rest, q, hr => by
    simp only [settleFrom] at hr ⊢
    by_cases hup : name = ".."
    · rw [if_pos hup] at hr ⊢
      split at hr
      · rename_i hd
        rw [if_pos (h q hd)]
        exact settleFrom_mono h hr
      · cases hr
    · rw [if_neg hup] at hr ⊢
      exact settleFrom_mono h hr

/-- A new file leads no path elsewhere. -/
theorem Disk.settleFrom_set {d : Disk} {p r q : Path} {c : Content} {parts : List String}
    (h : d.settleFrom q parts = .ok r) :
    { d with files := Ledger.set d.files p c }.settleFrom q parts = .ok r :=
  settleFrom_mono (fun _ => hasDirectory_set) h

/-- What is written to a path that nothing keeps from being written is there. -/
theorem Disk.content?_write {d : Disk} {p : Path} {c : Content} (h : d.obstacle? p = none) :
    (d.write p c).content? p = some c := by
  unfold obstacle? at h
  split at h
  · rename_i q hq
    have hset : { d with files := Ledger.set d.files q c }.settle p = .ok q := settleFrom_set hq
    rw [write, hq, content?, hset]
    show Ledger.get? (Ledger.set d.files q c) q = some c
    rw [Ledger.get?_set, if_pos rfl]
  · cases h

/-- A plan that was carried out has produced its records once an old file was out of the way. -/
theorem execute_ok {p : Plan σ} {disk : Disk} {s : Session} {n : Nat}
    (h : (p.execute disk s).result = .ok n) :
    ∃ cleared v, produce p.pool p.source p.total
        { p.writer with obstacle := p.obstacle? cleared } = (.ok n, v) ∧
      (p.execute disk s).disk = match v.file with
        | some c => cleared.write p.output c
        | none => cleared := by
  unfold Plan.execute at h ⊢
  dsimp only at h ⊢
  split at h
  · cases h
  · rename_i cleared hcleared
    rcases hproduce : produce p.pool p.source p.total
      { p.writer with obstacle := p.obstacle? cleared } with ⟨result, v⟩
    rw [hproduce] at h
    cases result with
    | error e => cases h
    | ok m =>
      cases h
      exact ⟨cleared, v, hproduce, rfl⟩

/-- **A plan that was carried out for an Avro file has written its records to it.** -/
theorem file_of_execute {p : Plan σ} {disk : Disk} {s : Session} {n : Nat}
    (hf : p.writer.format = .avro) (hinit : p.writer = p.writer.inState {})
    (h : (p.execute disk s).result = .ok n) :
    n = p.records.length ∧ ∃ c, (p.execute disk s).disk.content? p.output = some c ∧
      p.writer.Encodes (p.records.map p.writer.snapshot) c ∧
      Avro.Encodable p.writer.schema (p.records.map p.writer.snapshot) := by
  obtain ⟨cleared, v, hproduce, hdisk⟩ := execute_ok h
  obtain ⟨ho, hn, c, hfile, hencodes⟩ := file_of_produce hf hinit hproduce
  refine ⟨hn, c, ?_, hencodes⟩
  have hobstacle : cleared.obstacle? p.output = none := by
    unfold Plan.obstacle? at ho
    rw [hf] at ho
    simpa using ho
  rw [hdisk, hfile]
  exact Disk.content?_write hobstacle

end RecordForge
