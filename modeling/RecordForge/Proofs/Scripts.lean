import Mathlib.Logic.Function.Basic
import RecordForge.Proofs.Encoding
import RecordForge.Proofs.Files

/-!
# Scripts of a writer

A writer is handed dictionaries, the same one again and again if its user likes, and is flushed and
closed. Its state is sound as long as the records it took are those in its file followed by those it
holds; every operation keeps it so, and none of them fails when the records can be written.

* `Writer.Sound`: the invariant.
* `append_sound`, `flush_sound`, `close_sound`: what each operation does to it.
* `Act`, `Desk.run`: scripts, in which the dictionaries change between the operations.
* `run_sound`, `run_closes`: whole scripts.
* **`file_of_script`**: the file of a closed writer holds the records that were appended.
-/

namespace RecordForge

namespace Writer

variable {w : Writer} {r : Record} {rs done : List Record}

/-! ## Operations -/

/-- What changes in a writer while records are handed to it. -/
structure State where
  written : Nat := 0
  pending : List Record := []
  file : Option Content := none
  started : Bool := false
  closed : Bool := false

/-- A writer in a state. Nothing keeps its file from being written. -/
def inState (w : Writer) (p : State) : Writer :=
  { w with
    written := p.written
    pending := p.pending
    file := p.file
    started := p.started
    closed := p.closed
    obstacle := none }

/-- What is true of a writer that has taken some records: the first of them are in its file, the
others are held. -/
structure Sound (w : Writer) (taken : List Record) (p : State) : Prop where
  pending : taken = taken.take p.written ++ p.pending
  written : p.written + p.pending.length = taken.length
  stands : (w.inState p).Stands (taken.take p.written)
  closed : p.closed = true → p.pending = [] ∧ p.started = true

section Operations

variable {taken : List Record} {p : State}

theorem Sound.mem_of_mem_pending (hp : w.Sound taken p) (h : r ∈ p.pending) : r ∈ taken :=
  hp.pending ▸ List.mem_append_right _ h

theorem write_stands (hw : w.Ready) (hp : (w.inState p).Stands done) (h : ∀ r ∈ rs, w.Writable r) :
    ∃ c, (w.inState p).write rs = (w.inState { p with file := some c, started := true }, none) ∧
      w.Encodes (done ++ rs) c := by
  have hready : (w.inState p).Ready := ⟨hw.columns, hw.distinct, hw.schema⟩
  obtain ⟨c, hc, hencodes⟩ := fileAfter_encodes hready hp
    fun r hr => ⟨(h r hr).kinds, (h r hr).encodes⟩
  refine ⟨c, ?_, hencodes⟩
  unfold write
  rw [hc]
  simp only [inState, Option.isNone_none, Bool.or_true]

/-- A flush writes what is held and takes nothing. -/
theorem flush_sound (hw : w.Ready) (hp : w.Sound taken p) (h : ∀ r ∈ p.pending, w.Writable r) :
    ∃ q, (w.inState p).flush = (w.inState q, none) ∧ w.Sound taken q ∧ q.pending = [] ∧
      q.closed = p.closed := by
  by_cases hempty : p.pending = []
  · refine ⟨p, ?_, hp, hempty, rfl⟩
    have : (w.inState p).pending.isEmpty = true := by rw [inState, hempty]; rfl
    rw [flush, if_pos this]
  · obtain ⟨c, hc, hencodes⟩ := write_stands hw hp.stands h
    rw [← hp.pending] at hencodes
    have hfull : taken.take (p.written + p.pending.length) = taken := by
      rw [hp.written, List.take_length]
    refine ⟨⟨p.written + p.pending.length, [], some c, true, p.closed⟩, ?_, ?_, rfl, rfl⟩
    · have : (w.inState p).pending.isEmpty = false := by
        rw [inState, List.isEmpty_eq_false_iff]
        exact hempty
      have hwrite : (w.inState p).write (w.inState p).pending = _ := hc
      rw [flush, this, if_neg Bool.false_ne_true, hwrite]
      rfl
    · refine ⟨by rw [hfull, List.append_nil], hp.written, ?_, ?_⟩
      · rw [hfull]
        exact ⟨c, rfl, hencodes⟩
      · exact fun _ => ⟨rfl, rfl⟩

/-- A record that is taken is held. -/
theorem hold_sound (hp : w.Sound taken p) (hopen : p.closed = false) (r : Record) :
    w.Sound (taken ++ [w.snapshot r]) { p with pending := p.pending ++ [w.snapshot r] } := by
  have hle : p.written ≤ taken.length := by rw [← hp.written]; exact Nat.le_add_right _ _
  have htake : (taken ++ [w.snapshot r]).take p.written = taken.take p.written :=
    List.take_append_of_le_length hle
  refine ⟨?_, ?_, ?_, ?_⟩
  · rw [htake, ← List.append_assoc, ← hp.pending]
  · rw [List.length_append, List.length_append, ← hp.written, Nat.add_assoc]
  · rw [htake]
    exact hp.stands
  · intro hc
    rw [hopen] at hc
    cases hc

theorem append_inState (r : Record) : (w.inState p).append r =
    if w.interval ≤ (p.pending ++ [w.snapshot r]).length
    then (w.inState { p with pending := p.pending ++ [w.snapshot r] }).flush
    else (w.inState { p with pending := p.pending ++ [w.snapshot r] }, none) := rfl

/-- A record that is taken waits until there are enough. -/
theorem append_sound (hw : w.Ready) (hp : w.Sound taken p) (hopen : p.closed = false) {r : Record}
    (h : ∀ q ∈ taken ++ [w.snapshot r], w.Writable q) :
    ∃ q, (w.inState p).append r = (w.inState q, none) ∧ w.Sound (taken ++ [w.snapshot r]) q ∧
      (0 < w.interval → q.pending.length < w.interval) ∧ q.closed = false := by
  have hheld := hold_sound hp hopen r
  rw [append_inState]
  by_cases hfull : w.interval ≤ (p.pending ++ [w.snapshot r]).length
  · obtain ⟨q, hq, hs, he, hc⟩ := flush_sound hw hheld fun q hq => h q (hheld.mem_of_mem_pending hq)
    refine ⟨q, by rw [if_pos hfull, hq], hs, fun hi => ?_, hc.trans hopen⟩
    rw [he]
    exact hi
  · exact ⟨_, if_neg hfull, hheld, fun _ => Nat.lt_of_not_le hfull, hopen⟩

/-- A writer that is closed once nothing is held has a file. Without any record it writes a header. -/
theorem close_of_flush {q : State} (hw : q.started = false → w.Ready) (hopen : p.closed = false)
    (hq : (w.inState p).flush = (w.inState q, none)) (hs : w.Sound taken q) (he : q.pending = []) :
    ∃ q, (w.inState p).close = (w.inState q, none) ∧ w.Sound taken q ∧ q.closed = true := by
  unfold close
  rw [if_neg (show ¬(w.inState p).closed = true from ne_true_of_eq_false hopen), hq]
  have hall : taken = taken.take q.written := by
    have := hs.pending
    rwa [he, List.append_nil] at this
  by_cases hst : q.started = true
  · exact ⟨{ q with closed := true }, if_pos hst,
      ⟨hs.pending, hs.written, hs.stands, fun _ => ⟨he, hst⟩⟩, rfl⟩
  · obtain ⟨c, hwrite, hencodes⟩ := write_stands (hw (eq_false_of_ne_true hst)) hs.stands
      (show ∀ r ∈ ([] : List Record), w.Writable r from fun r hr => absurd hr List.not_mem_nil)
    rw [List.append_nil] at hencodes
    refine ⟨{ q with file := some c, started := true, closed := true }, ?_,
      ⟨hs.pending, hs.written, ⟨c, rfl, hencodes⟩, fun _ => ⟨he, rfl⟩⟩, rfl⟩
    have hstarted : (w.inState q).started = false := eq_false_of_ne_true hst
    dsimp only
    rw [hstarted, if_neg Bool.false_ne_true, hwrite]
    rfl

/-- A writer that is closed has written what it took. -/
theorem close_sound (hw : w.Ready) (hp : w.Sound taken p) (h : ∀ r ∈ taken, w.Writable r) :
    ∃ q, (w.inState p).close = (w.inState q, none) ∧ w.Sound taken q ∧ q.closed = true := by
  by_cases hc : p.closed = true
  · exact ⟨p, if_pos hc, hp, hc⟩
  · obtain ⟨q, hq, hs, he, -⟩ := flush_sound hw hp fun q hq => h q (hp.mem_of_mem_pending hq)
    exact close_of_flush (fun _ => hw) (eq_false_of_ne_true hc) hq hs he

end Operations

/-! ## Records handed over -/

theorem get?_map_of_mem {f : String → Value} {c : String} : ∀ {l : List String}, c ∈ l →
    Ledger.get? (l.map fun c => (c, f c)) c = some (f c)
  | [], h => absurd h List.not_mem_nil
  | b :: rest, h => by
    rw [List.map_cons, Ledger.get?]
    by_cases hb : b = c
    · rw [if_pos hb, hb]
    · rw [if_neg hb]
      exact get?_map_of_mem ((List.mem_cons.mp h).resolve_left fun he => hb he.symm)

theorem get?_snapshot {c : String} (hc : c ∈ w.columns) :
    Ledger.get? (w.snapshot r) c = some (valueIn r c) :=
  get?_map_of_mem (f := fun c => valueIn r c) (mem_firsts.mpr hc)

theorem kindsTake_snapshot (h : w.KindsTake r) : w.KindsTake (w.snapshot r) := by
  intro c hc
  obtain ⟨k, hk, ht⟩ := h c hc
  refine ⟨k, hk, ?_⟩
  rw [valueIn, get?_snapshot hc]
  exact ht

theorem words_of_takes {k : Kind} {v : Value} (h : k.Takes v) : AvroType.Words v := by
  rintro n rfl
  cases k with
  | int => exact Word.IsInt.isLong h
  | long => exact h
  | _ => exact h.elim

/-- A record has values of the kinds of the columns, and of the types of an Avro schema. -/
structure Suits (w : Writer) (r : Record) : Prop where
  kinds : w.KindsTake r
  types : w.format = .avro → ∀ fields, w.schema.type = .record fields →
    ∀ f ∈ fields, f.type.Takes (valueIn r f.name)

/-- An Avro file has a schema that can head it, of fields that are columns. -/
def HasSchema (w : Writer) : Prop :=
  w.format = .avro → w.schema.obstacle = none ∧
    ∃ fields, w.schema.type = .record fields ∧ ∀ f ∈ fields, f.name ∈ w.columns

section Created

variable {format : Format} {columns : List String} {interval : Nat} {kinds : Ledger String Kind}
  {schema : Option Document} {dialect : Csv.Dialect}

/-- The schema of a new writer of an Avro file comes of a document. -/
theorem schema_of_create (hw : create format columns interval kinds schema dialect = .ok w)
    (hf : w.format = .avro) : ∃ d, AvroSchema.ofDocument d = .ok w.schema := by
  unfold create at hw
  split at hw
  · split at hw
    · cases hw
    · obtain ⟨s, hd, rfl⟩ := map_eq_ok.mp hw
      exact ⟨_, hd⟩
  · rename_i hne
    cases hw
    exact absurd hf hne

theorem writable_snapshot (hw : create format columns interval kinds schema dialect = .ok w) (hs : w.HasSchema)
    (h : w.Suits r) : w.Writable (w.snapshot r) := by
  refine ⟨fun _ => kindsTake_snapshot h.kinds, fun hf => ?_⟩
  obtain ⟨-, fields, ht, hnames⟩ := hs hf
  obtain ⟨d, hd⟩ := schema_of_create hw hf
  refine AvroSchema.encodeRecord_of_takes hd ht fun f hmem => ?_
  obtain ⟨k, -, hk⟩ := h.kinds f.name (hnames f hmem)
  exact ⟨_, get?_snapshot (hnames f hmem), h.types hf fields ht f hmem, words_of_takes hk⟩

theorem readable_snapshots (hw : create format columns interval kinds schema dialect = .ok w) (hs : w.HasSchema)
    (h : ∀ r ∈ rs, w.Suits r) : w.Readable (rs.map w.snapshot) := by
  refine ⟨fun _ r hr => ?_, fun hf => ⟨fun r hr => ?_, ?_⟩⟩
  · obtain ⟨q, hq, rfl⟩ := List.mem_map.mp hr
    exact kindsTake_snapshot (h q hq).kinds
  · obtain ⟨q, hq, rfl⟩ := List.mem_map.mp hr
    exact (writable_snapshot hw hs (h q hq)).encodes hf
  · obtain ⟨-, fields, ht, hnames⟩ := hs hf
    obtain ⟨d, hd⟩ := schema_of_create hw hf
    refine ⟨d, fields, hd, ht, fun r hr f hmem => ?_⟩
    obtain ⟨q, -, rfl⟩ := List.mem_map.mp hr
    exact ⟨_, get?_snapshot (hnames f hmem)⟩

end Created

end Writer

/-! ## Scripts -/

/-- What is done with a writer and with the dictionaries that it is handed. -/
inductive Act where
  /-- A dictionary changes. -/
  | change (place : Nat) (r : Record)
  /-- The dictionary at a place is handed to the writer. -/
  | append (place : Nat)
  | flush
  | close
  deriving DecidableEq

/-- A writer and the dictionaries that it is handed. -/
structure Desk where
  dicts : Nat → Record
  writer : Writer

namespace Desk

/-- The desk after an operation of its writer. -/
def settle (s : Desk) : Writer × Option Failure → Except Failure Desk
  | (w, none) => .ok { s with writer := w }
  | (_, some e) => .error e

/-- The desk after an act. -/
def step (s : Desk) : Act → Except Failure Desk
  | .change place r => .ok { s with dicts := Function.update s.dicts place r }
  | .append place => s.settle (s.writer.append (s.dicts place))
  | .flush => s.settle s.writer.flush
  | .close => s.settle s.writer.close

/-- The desk after a script, up to the first failure. -/
def run (s : Desk) : List Act → Except Failure Desk
  | [] => .ok s
  | a :: rest => (s.step a).bind fun s => s.run rest

/-- The file that a script leaves, if it can be carried out. -/
def left? (s : Desk) (acts : List Act) : Option Content :=
  match s.run acts with
  | .ok s => s.writer.visible
  | .error _ => none

theorem left?_of_run {s t : Desk} {acts : List Act} (h : s.run acts = .ok t) :
    s.left? acts = t.writer.visible := by
  rw [left?, h]

/-- The dictionaries that a script hands to the writer, as they are then. -/
def appended (dicts : Nat → Record) : List Act → List Record
  | [] => []
  | .change place r :: rest => appended (Function.update dicts place r) rest
  | .append place :: rest => dicts place :: appended dicts rest
  | _ :: rest => appended dicts rest

theorem run_append {s : Desk} : ∀ {before after : List Act},
    s.run (before ++ after) = (s.run before).bind fun s => s.run after
  | [], _ => rfl
  | a :: before, after => by
    rw [List.cons_append, run, run]
    cases s.step a with
    | error e => rfl
    | ok t => exact run_append

theorem appended_closes (n : Nat) : ∀ (acts : List Act) (dicts : Nat → Record),
    appended dicts (acts ++ List.replicate n .close) = appended dicts acts
  | [], dicts => by
    induction n with
    | zero => rfl
    | succ n ih => exact ih
  | .change place r :: rest, dicts => appended_closes n rest (Function.update dicts place r)
  | .append place :: rest, dicts => congrArg (dicts place :: ·) (appended_closes n rest dicts)
  | .flush :: rest, dicts | .close :: rest, dicts => appended_closes n rest dicts

variable {w : Writer}

/-- **A script without a close keeps the writer sound**, and fewer records are held than the interval
says. -/
theorem run_sound (hw : w.Ready) :
    ∀ (acts : List Act) {dicts : Nat → Record} {taken : List Record} {p : Writer.State},
      .close ∉ acts → w.Sound taken p → p.closed = false →
      (0 < w.interval → p.pending.length < w.interval) →
      (∀ r ∈ taken ++ (appended dicts acts).map w.snapshot, w.Writable r) →
      ∃ dicts' q, run ⟨dicts, w.inState p⟩ acts = .ok ⟨dicts', w.inState q⟩ ∧
        w.Sound (taken ++ (appended dicts acts).map w.snapshot) q ∧ q.closed = false ∧
        (0 < w.interval → q.pending.length < w.interval)
  | [], dicts, taken, p, _, hp, hopen, hshort, _ =>
    ⟨dicts, p, rfl, by rwa [appended, List.map_nil, List.append_nil], hopen, hshort⟩
  | .change place r :: rest, dicts, taken, p, hacts, hp, hopen, hshort, h => by
    have hrest : .close ∉ rest := fun hm => hacts (List.mem_cons_of_mem _ hm)
    exact run_sound hw rest hrest hp hopen hshort h
  | .append place :: rest, dicts, taken, p, hacts, hp, hopen, hshort, h => by
    have hrest : .close ∉ rest := fun hm => hacts (List.mem_cons_of_mem _ hm)
    have hsplit : taken ++ (appended dicts (.append place :: rest)).map w.snapshot =
        taken ++ [w.snapshot (dicts place)] ++ (appended dicts rest).map w.snapshot := by
      rw [appended, List.map_cons, List.append_assoc, List.singleton_append]
    rw [hsplit] at h ⊢
    obtain ⟨q, hq, hs, hshort', hopen'⟩ := Writer.append_sound hw hp hopen fun r hr =>
      h r (List.mem_append_left _ hr)
    obtain ⟨dicts', q', hrun, hq'⟩ := run_sound hw rest hrest hs hopen' hshort' h
    refine ⟨dicts', q', ?_, hq'⟩
    rw [run, step, hq]
    exact hrun
  | .flush :: rest, dicts, taken, p, hacts, hp, hopen, hshort, h => by
    have hrest : .close ∉ rest := fun hm => hacts (List.mem_cons_of_mem _ hm)
    obtain ⟨q, hq, hs, hempty, hclosed⟩ := Writer.flush_sound hw hp fun r hr =>
      h r (List.mem_append_left _ (hp.mem_of_mem_pending hr))
    obtain ⟨dicts', q', hrun, hq'⟩ := run_sound hw rest hrest hs (hclosed.trans hopen)
      (fun hi => by rw [hempty]; exact hi) h
    refine ⟨dicts', q', ?_, hq'⟩
    rw [run, step, hq]
    exact hrun
  | .close :: rest, _, _, _, hacts, _, _, _, _ => absurd List.mem_cons_self hacts

/-- The first close of several writes what is held, and the others do nothing. -/
theorem run_closes (hw : w.Ready) {taken : List Record} (h : ∀ r ∈ taken, w.Writable r)
    {dicts : Nat → Record} : ∀ (n : Nat) {p : Writer.State}, w.Sound taken p →
      (0 < w.interval → p.pending.length < w.interval) →
      ∃ q, run ⟨dicts, w.inState p⟩ (List.replicate n .close) = .ok ⟨dicts, w.inState q⟩ ∧
        w.Sound taken q ∧ (0 < w.interval → q.pending.length < w.interval) ∧
        (p.closed = true ∨ 0 < n → q.closed = true)
  | 0, p, hp, hshort =>
    ⟨p, rfl, hp, hshort, fun hn => hn.resolve_right (Nat.lt_irrefl 0)⟩
  | n + 1, p, hp, hshort => by
    obtain ⟨q, hq, hs, hc⟩ := Writer.close_sound hw hp h
    obtain ⟨q', hrun, hs', hlt', hc'⟩ := run_closes hw h n hs fun hi => by rw [(hs.closed hc).1]; exact hi
    refine ⟨q', ?_, hs', hlt', fun _ => hc' (Or.inl hc)⟩
    rw [List.replicate_succ, run, step, hq]
    exact hrun

/-- A script that ends in closes can be carried out, whatever the interval. -/
theorem run_through (hw : w.Ready) {acts : List Act} (hacts : .close ∉ acts)
    {dicts : Nat → Record} (n : Nat) (hinit : w.Sound [] {})
    (h : ∀ r ∈ (appended dicts acts).map w.snapshot, w.Writable r) :
    ∃ dicts' q, run ⟨dicts, w.inState {}⟩ (acts ++ List.replicate n .close) =
        .ok ⟨dicts', w.inState q⟩ ∧
      w.Sound ((appended dicts acts).map w.snapshot) q ∧
      (0 < w.interval → q.pending.length < w.interval) ∧ (0 < n → q.closed = true) := by
  obtain ⟨dicts', q, hrun, hs, -, hlt⟩ := run_sound hw acts hacts hinit rfl id h
  obtain ⟨q', hrun', hs', hlt', hc⟩ := @run_closes w hw _ h dicts' n q hs hlt
  refine ⟨dicts', q', ?_, hs', hlt', fun hn => hc (Or.inr hn)⟩
  rw [run_append, hrun]
  exact hrun'

/-- A script that ends in closes, and everything that it starts with, can be carried out. -/
theorem run_script (hw : w.Ready) (hi : 0 < w.interval) {acts : List Act} (hacts : .close ∉ acts)
    {dicts : Nat → Record} (n : Nat) (hinit : w.Sound [] {})
    (h : ∀ r ∈ (appended dicts acts).map w.snapshot, w.Writable r) :
    ∃ dicts' q, run ⟨dicts, w.inState {}⟩ (acts ++ List.replicate n .close) =
        .ok ⟨dicts', w.inState q⟩ ∧
      w.Sound ((appended dicts acts).map w.snapshot) q ∧ q.pending.length < w.interval ∧
      (0 < n → q.closed = true) := by
  obtain ⟨dicts', q, hrun, hs, hlt, hc⟩ := run_through hw hacts n hinit h
  exact ⟨dicts', q, hrun, hs, hlt hi, hc⟩

/-- What a script that ends in closes starts with is such a script, too. -/
theorem start_of_script {acts before after : List Act} {n : Nat}
    (h : acts ++ List.replicate n .close = before ++ after) :
    ∃ m rest rest', before = rest ++ List.replicate m .close ∧ acts = rest ++ rest' := by
  rcases List.append_eq_append_iff.mp h with ⟨a, ha, hr⟩ | ⟨a, ha, -⟩
  · have hclose := (List.replicate_eq_append_iff.mp hr).2.1
    exact ⟨a.length, acts, [], by rw [ha, ← hclose], (List.append_nil acts).symm⟩
  · exact ⟨0, before, a, (List.append_nil before).symm, ha⟩

theorem appended_append : ∀ (before after : List Act) (dicts : Nat → Record),
    ∃ more, appended dicts (before ++ after) = appended dicts before ++ more
  | [], after, dicts => ⟨appended dicts after, rfl⟩
  | .change place r :: rest, after, dicts => appended_append rest after (Function.update dicts place r)
  | .append place :: rest, after, dicts => by
    obtain ⟨more, h⟩ := appended_append rest after dicts
    exact ⟨more, congrArg (dicts place :: ·) h⟩
  | .flush :: rest, after, dicts | .close :: rest, after, dicts => appended_append rest after dicts

end Desk

/-! ## The file of a script -/

theorem Writer.create_run {w : Writer} {dicts : Nat → Record} {acts : List Act} {s : Desk}
    (hw : w = w.inState {}) (h : Desk.run ⟨dicts, w.inState {}⟩ acts = .ok s) :
    Desk.run ⟨dicts, w⟩ acts = .ok s := by
  rw [hw]
  exact h

/-- A writer that is closed has a file, and it has all that was taken. -/
theorem Writer.Sound.file_of_closed {w : Writer} {taken : List Record} {q : Writer.State}
    (hq : w.Sound taken q) (hc : q.closed = true) :
    ∃ c, q.file = some c ∧ w.Encodes taken c := by
  obtain ⟨hempty, hstarted⟩ := hq.closed hc
  have hall := hq.pending
  rw [hempty, List.append_nil] at hall
  have hstands := hq.stands
  rw [← hall, Writer.Stands, if_pos (show (w.inState q).started = true from hstarted)] at hstands
  exact hstands

/-- A file with all its blocks, or all its groups of rows, made one. -/
def Content.merged : Content → Content
  | .avro blocks => .avro [⟨Avro.total blocks, Avro.bytes blocks⟩]
  | .parquet p => .parquet ⟨p.columns, [p.groups.flatten]⟩
  | c => c

namespace Writer

variable {w : Writer} {rs : List Record}

/-- The file of some records with all of them in one block or group. -/
def whole (w : Writer) (rs : List Record) : Content :=
  match w.format with
  | .csv => .text (w.textOf rs)
  | .parquet => .parquet ⟨w.parquetTypes, [rs.map w.cells]⟩
  | .avro => .avro [⟨rs.length, rs.flatMap (Avro.recordBytes w.schema)⟩]

theorem merged_of_encodes {c : Content} (h : w.Encodes rs c) : c.merged = w.whole rs := by
  unfold Encodes at h
  unfold whole
  cases hf : w.format with
  | csv =>
    simp only [hf] at h
    rw [h]
    rfl
  | parquet =>
    simp only [hf] at h
    obtain ⟨groups, rfl, hg⟩ := h
    simp only [Content.merged, hg]
  | avro =>
    simp only [hf] at h
    obtain ⟨blocks, rfl, hcuts⟩ := h
    simp only [Content.merged, hcuts.total, hcuts.bytes]

theorem create_eq {format : Format} {columns : List String} {interval : Nat}
    {kinds : Ledger String Kind} {schema : Option Document} {dialect : Csv.Dialect}
    (hw : create format columns interval kinds schema dialect = .ok w) :
    w.columns = columns ∧ w.interval = interval ∧ w = w.inState {} ∧
      ∀ i v, create format columns i kinds schema dialect = .ok v → v = { w with interval := i } := by
  unfold create at hw ⊢
  split at hw
  · rename_i hf
    split at hw
    · cases hw
    · obtain ⟨s, hd, rfl⟩ := map_eq_ok.mp hw
      refine ⟨rfl, rfl, rfl, fun i v hv => ?_⟩
      simp only [if_pos hf, hd] at hv
      cases hv
      rfl
  · rename_i hf
    cases hw
    refine ⟨rfl, rfl, rfl, fun i v hv => ?_⟩
    simp only [if_neg hf] at hv
    cases hv
    rfl

end Writer

/-- **A file holds exactly the records that were appended, as they were then.** A script changes
dictionaries, appends them as records and flushes as it likes, and closes the writer at its end, once or
more often. It can be carried out; the file has the header once and then the records in order, and up to
its blocks and groups it is the same for every interval. At every point of the script each record
appended so far is either written or held, and there are fewer held than the interval says. -/
theorem file_of_script {format : Format} {columns : List String} {interval : Nat}
    {kinds : Ledger String Kind} {schema : Option Document} {dialect : Csv.Dialect} {w : Writer}
    (hw : Writer.create format columns interval kinds schema dialect = .ok w) (hi : 1 ≤ interval)
    (hc : columns ≠ []) (hn : columns.Nodup) (hs : w.HasSchema) {acts : List Act}
    (hacts : .close ∉ acts) (dicts : Nat → Record)
    (h : ∀ r ∈ Desk.appended dicts acts, w.Suits r) (n : Nat) :
    (∃ s c, Desk.run ⟨dicts, w⟩ (acts ++ List.replicate (n + 1) .close) = .ok s ∧
      s.writer.visible = some c ∧ w.Holds ((Desk.appended dicts acts).map w.snapshot) c ∧
      ∀ i v, Writer.create format columns i kinds schema dialect = .ok v →
        c.merged = v.whole ((Desk.appended dicts acts).map w.snapshot)) ∧
    ∀ before after, acts ++ List.replicate (n + 1) .close = before ++ after →
      ∃ s, Desk.run ⟨dicts, w⟩ before = .ok s ∧
        s.writer.written + s.writer.pending.length = (Desk.appended dicts before).length ∧
        s.writer.pending.length < interval := by
  obtain ⟨hcolumns, hinterval, hinit, hall⟩ := Writer.create_eq hw
  subst hcolumns hinterval
  have hready : w.Ready := ⟨fun _ => hc, fun _ => hn, fun hf => (hs hf).1⟩
  have hsound : w.Sound [] {} := ⟨rfl, rfl, ⟨rfl, rfl⟩, nofun⟩
  have hwritable : ∀ r ∈ (Desk.appended dicts acts).map w.snapshot, w.Writable r := by
    intro r hr
    obtain ⟨q, hq, rfl⟩ := List.mem_map.mp hr
    exact Writer.writable_snapshot hw hs (h q hq)
  constructor
  · obtain ⟨dicts', q, hrun, hq, -, hclosed⟩ :=
      Desk.run_script hready hi hacts (n + 1) hsound hwritable
    have hclosed := hclosed (Nat.succ_pos n)
    obtain ⟨c, hfile, hencodes⟩ := hq.file_of_closed hclosed
    refine ⟨_, c, Writer.create_run hinit hrun, ?_, hencodes.holds (Writer.readable_snapshots hw hs h),
      fun i v hv => ?_⟩
    · show (w.inState q).visible = some c
      unfold Writer.visible
      split
      · rw [if_pos (show (w.inState q).closed = true from hclosed)]
        exact hfile
      · exact hfile
    · rw [hall i v hv]
      exact Writer.merged_of_encodes hencodes
  · intro before after hsplit
    obtain ⟨m, rest, rest', rfl, rfl⟩ := Desk.start_of_script hsplit
    obtain ⟨more, hmore⟩ := Desk.appended_append rest rest' dicts
    obtain ⟨dicts', q, hrun, hq, hlt, -⟩ := Desk.run_script hready hi
      (fun hm => hacts (List.mem_append_left _ hm)) m hsound fun r hr =>
        hwritable r (by rw [hmore, List.map_append]; exact List.mem_append_left _ hr)
    refine ⟨_, Writer.create_run hinit hrun, ?_, hlt⟩
    have hwritten := hq.written
    rw [List.length_map] at hwritten
    rw [Desk.appended_closes]
    exact hwritten

/-- A record of a long that may be null and of a text. -/
def pairDocument : Document :=
  .dict [(.text "type", .text "record"), (.text "name", .text "Pair"),
    (.text "fields", .list [
      .dict [(.text "name", .text "size"), (.text "type", .list [.text "null", .text "long"])],
      .dict [(.text "name", .text "side"), (.text "type", .text "string")]])]

/-- The fields of that record as an Avro file has them. -/
def pairFields : List (AvroField AvroType) :=
  [⟨"size", .union [.primitive .null, .primitive .long], none, false, true⟩,
    ⟨"side", .primitive .string, none, false, false⟩]

/-- A writer of such records that holds no more than one of them. -/
def pairWriter (format : Format) : Writer where
  format := format
  columns := ["size", "side"]
  interval := 2
  kinds := [("size", .long), ("side", .string)]
  schema := match format with
    | .avro => { type := .record pairFields, names := [("Pair", .record pairFields)] }
    | _ => { type := .record [] }
  dialect := { quotesReturns := true }

/-- A dictionary is appended, changed and appended again, and changed before the close. -/
def pairScript : List Act :=
  [.change 0 [("side", .text "left\r"), ("size", .int 9007199254740993)], .append 0, .flush,
    .change 0 [("size", .null), ("side", .text "the \"right\" one"), ("extra", .bool true)], .append 0,
    .change 0 []]

/-- The records that the script appends, as they are held. -/
def pairRecords : List Record :=
  [[("size", .int 9007199254740993), ("side", .text "left\r")],
    [("size", .null), ("side", .text "the \"right\" one")]]

/-- The files that the script makes. -/
def pairFile : Format → Content
  | .csv => .text "size,side\n9007199254740993,\"left\r\"\n,\"the \"\"right\"\" one\"\n"
  | .parquet => .parquet ⟨[("size", .int64), ("side", .string)],
    [[[.int 9007199254740993, .text "left\r"]], [[.null, .text "the \"right\" one"]]]⟩
  | .avro => .avro
    [⟨1, [2, 130, 128, 128, 128, 128, 128, 128, 32, 10, 108, 101, 102, 116, 13]⟩,
      ⟨1, [0, 30, 116, 104, 101, 32, 34, 114, 105, 103, 104, 116, 34, 32, 111, 110, 101]⟩]

/-- The file that the script leaves when the writer is closed twice. -/
def pairLeft? (format : Format) : Option Content :=
  Desk.left? ⟨fun _ => [], pairWriter format⟩ (pairScript ++ List.replicate 2 .close)

/-- In each format the file holds the two records, and this is what it looks like. -/
theorem file_of_script_pair :
    (pairLeft? .csv = some (pairFile .csv) ∧ (pairWriter .csv).Holds pairRecords (pairFile .csv)) ∧
    (pairLeft? .parquet = some (pairFile .parquet) ∧ (pairWriter .parquet).Holds pairRecords (pairFile .parquet)) ∧
    (pairLeft? .avro = some (pairFile .avro) ∧ (pairWriter .avro).Holds pairRecords (pairFile .avro)) := by
  have hcolumns (format : Format) : ∀ c ∈ (pairWriter format).columns, c = "size" ∨ c = "side" := by
    simp [pairWriter]
  have hfields (format : Format) (hf : format = .avro) : ∀ fields,
      (pairWriter format).schema.type = .record fields → ∀ f ∈ fields,
        f = ⟨"size", .union [.primitive .null, .primitive .long], none, false, true⟩ ∨
          f = ⟨"side", .primitive .string, none, false, false⟩ := by
    subst hf
    rintro _ ⟨⟩
    simp [pairFields]
  have hsuits (format : Format) : ∀ r ∈ Desk.appended (fun _ => []) pairScript, (pairWriter format).Suits r := by
    intro r hr
    rcases List.mem_cons.mp hr with rfl | hr
    · refine ⟨fun c hc => ?_, fun hformat fields ht f hf => ?_⟩
      · rcases hcolumns format c hc with rfl | rfl
        · exact ⟨.long, rfl, (by decide : Word.IsLong 9007199254740993)⟩
        · exact ⟨.string, rfl, trivial⟩
      · rcases hfields format hformat fields ht f hf with rfl | rfl <;> exact rfl
    · obtain rfl := List.mem_singleton.mp hr
      refine ⟨fun c hc => ?_, fun hformat fields ht f hf => ?_⟩
      · rcases hcolumns format c hc with rfl | rfl
        · exact ⟨.long, rfl, trivial⟩
        · exact ⟨.string, rfl, trivial⟩
      · rcases hfields format hformat fields ht f hf with rfl | rfl <;> exact rfl
  have hcreate (format : Format) : Writer.create format ["size", "side"] 2 [("size", .long), ("side", .string)]
      (some pairDocument) { quotesReturns := true } = .ok (pairWriter format) := by
    cases format <;> rfl
  have hschema (format : Format) : (pairWriter format).HasSchema := by
    rintro (rfl : format = .avro)
    exact ⟨rfl, pairFields, rfl, by simp [pairFields, pairWriter]⟩
  have hfile (format : Format) (hleft : pairLeft? format = some (pairFile format)) :
      pairLeft? format = some (pairFile format) ∧ (pairWriter format).Holds pairRecords (pairFile format) := by
    obtain ⟨⟨s, c, hrun, hc, hholds, -⟩, -⟩ := file_of_script (hcreate format) (by decide) (by decide)
      (by decide) (hschema format) (by decide) (fun _ => []) (hsuits format) 1
    have hvisible : pairLeft? format = s.writer.visible := Desk.left?_of_run hrun
    rw [hvisible, hc] at hleft
    exact ⟨hvisible.trans (hc.trans hleft), Option.some.inj hleft ▸ hholds⟩
  exact ⟨hfile .csv rfl, hfile .parquet rfl, hfile .avro (by decide +kernel)⟩

end RecordForge
