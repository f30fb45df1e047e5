import RecordForge.Program.CommandLine
import RecordForge.Proofs.Answers
import RecordForge.Proofs.Interruption

/-!
# Files that a run leaves alone

A run asks, reads and checks before it touches a file. It may stop at any point of that, and then all files
are as they were. Once everything is settled it clears and writes one file, the one that it was asked for,
and if that was there it has been told to replace it.

* `Replies`: the answer to the question whether to replace a file.
* `Request.Stops`: the ways for a run to stop before it has settled everything.
* `Request.Configured`: what has been settled when it does not.
* `stops_or_configured`: there is no third way.
* `Disk.Spares`, `Plan.execute_spares`: the files that carrying out a plan leaves.
* **`files_of_run`**: a run that stops touches no file, and a file that was there changes only if all is
  settled and the answer was yes.
* `files_of_program`: the same for a whole program.
-/

namespace RecordForge

/-! ## The answer about an old file -/

/-- The first answer that says yes or no is one of some words; the answers after it are left. -/
def Replies (words answers rest : List String) : Prop :=
  ∃ refused line, answers = refused ++ line :: rest ∧ trimmed line ∈ words ∧
    ∀ x ∈ refused, trimmed x ∉ ["Y", "y", "N", "n"]

/-- What is said to replace a file, and to keep it. -/
def replyWords (go : Bool) : List String := if go then ["Y", "y"] else ["N", "n"]

theorem judgeClear_eq_accept {line : String} {go : Bool} :
    Dialog.judgeClear line = .accept go ↔ line ∈ replyWords go := by
  unfold Dialog.judgeClear replyWords
  by_cases hy : line = "Y" ∨ line = "y"
  · rw [if_pos hy]
    rcases hy with rfl | rfl <;> cases go <;> simp
  · rw [if_neg hy]
    rw [not_or] at hy
    by_cases hn : line = "N" ∨ line = "n"
    · rw [if_pos hn]
      rcases hn with rfl | rfl <;> cases go <;> simp
    · rw [if_neg hn]
      rw [not_or] at hn
      cases go <;> simp [hy, hn]

theorem judgeClear_reply {line : String} :
    (Dialog.judgeClear line).reply?.isSome ↔ line ∉ ["Y", "y", "N", "n"] := by
  unfold Dialog.judgeClear
  by_cases hy : line = "Y" ∨ line = "y"
  · rw [if_pos hy]
    rcases hy with rfl | rfl <;> decide
  · rw [if_neg hy]
    rw [not_or] at hy
    by_cases hn : line = "N" ∨ line = "n"
    · rw [if_pos hn]
      rcases hn with rfl | rfl <;> decide
    · rw [if_neg hn]
      rw [not_or] at hn
      simp [Verdict.reply?, hy, hn]

theorem answered_clear {go : Bool} {answers rest : List String} :
    Answered Dialog.judgeClear answers go rest ↔ Replies (replyWords go) answers rest := by
  simp only [Answered, Replies, judgeClear_eq_accept, judgeClear_reply]

/-! ## Stages -/

namespace Request

variable {σ : Type} {q : Request σ} {disk : Disk} {s : Session}

/-- A run may go on to read its schema: it knows where to write, and if a file is there the answer was
yes. -/
structure Cleared (q : Request σ) (disk : Disk) (s : Session) (output : Path) (t : Session) : Prop where
  path : q.outputPath = .ok output
  free : checked disk output = .ok ()
  replace : (askReplace disk output).run s = (.ok true, t)

/-- A run has read its schema and knows how many records to make. -/
structure Counted (q : Request σ) (disk : Disk) (s : Session) (output : Path) (loader : Schema.Loader)
    (total : Int) (t : Session) : Prop where
  cleared : ∃ u, q.Cleared disk s output u ∧ q.askTotal.run u = (.ok total, t)
  loaded : Schema.Loader.ofFile disk q.schema = .ok loader

/-- The ways for a run to stop before it has settled everything, in the order in which they come. -/
inductive Stops (q : Request σ) (disk : Disk) (s : Session) : Except Failure Nat → Prop
  /-- There is no output path. -/
  | path {d : Defect} (h : q.outputPath = .error d) : Stops q disk s (.error (.defect d))
  /-- The output path cannot be looked for. -/
  | lookup {output : Path} {d : Defect} (hpath : q.outputPath = .ok output)
      (h : checked disk output = .error d) : Stops q disk s (.error (.defect d))
  /-- The question whether to replace a file fails. -/
  | question {output : Path} {e : Failure} {t : Session} (hpath : q.outputPath = .ok output)
      (hfree : checked disk output = .ok ()) (h : (askReplace disk output).run s = (.error e, t)) :
      Stops q disk s (.error e)
  /-- The file that is there is to be kept. -/
  | kept {output : Path} {rest : List String} (hpath : q.outputPath = .ok output)
      (hfree : checked disk output = .ok ()) (hexists : disk.exists output = true)
      (h : Replies ["N", "n"] s.answers rest) : Stops q disk s (.ok 0)
  /-- The schema cannot be loaded. -/
  | schema {output : Path} {e : Failure} {t : Session} (hgo : q.Cleared disk s output t)
      (h : Schema.Loader.ofFile disk q.schema = .error e) : Stops q disk s (.error e)
  /-- The question for the number of records fails. -/
  | count {output : Path} {loader : Schema.Loader} {e : Failure} {t u : Session}
      (hgo : q.Cleared disk s output t) (hload : Schema.Loader.ofFile disk q.schema = .ok loader)
      (h : q.askTotal.run t = (.error e, u)) : Stops q disk s (.error e)
  /-- There is no source to draw from. -/
  | source {output : Path} {loader : Schema.Loader} {total : Int} {d : Defect} {t : Session}
      (hgo : q.Counted disk s output loader total t) (h : q.source = .error d) :
      Stops q disk s (.error (.defect d))
  /-- A field cannot be configured. -/
  | fields {output : Path} {loader : Schema.Loader} {total : Int} {source : σ} {e : Failure}
      {t u : Session} (hgo : q.Counted disk s output loader total t) (hsource : q.source = .ok source)
      (h : (settle loader.fields).run t = (.error e, u)) : Stops q disk s (.error e)
  /-- There can be no writer, as for a schema that is not valid for Avro. -/
  | writer {output : Path} {loader : Schema.Loader} {total : Int} {source : σ}
      {c : Dialog.Configuration} {e : Failure} {t u : Session}
      (hgo : q.Counted disk s output loader total t) (hsource : q.source = .ok source)
      (hfields : (settle loader.fields).run t = (.ok c, u))
      (h : Writer.create q.options.format loader.names q.options.interval c.kinds loader.document q.dialect =
        .error e) : Stops q disk s (.error e)

/-- Everything is settled: each of these steps succeeded, and a plan came of it. -/
structure Configured (q : Request σ) (disk : Disk) (s : Session) (p : Plan σ) (t : Session) : Prop where
  steps : ∃ loader c u, q.Counted disk s p.output loader p.total u ∧ q.source = .ok p.source ∧
    (settle loader.fields).run u = (.ok c, t) ∧
    Writer.create q.options.format loader.names q.options.interval c.kinds loader.document q.dialect =
      .ok p.writer ∧ p.pool = c.pool
  replaces : p.replaces = disk.exists p.output

theorem configured_iff {output : Path} {p : Plan σ} {t : Session} :
    (q.prepare disk).run s = (.ok (output, some p), t) ↔ p.output = output ∧ q.Configured disk s p t := by
  rw [prepare_iff]
  constructor
  · rintro ⟨loader, c, s₁, s₂, hpath, hfree, hgo, hload, htotal, hsource, hfields, hwriter, hp⟩
    obtain rfl : p.output = output := by rw [hp]
    refine ⟨rfl, ⟨loader, c, s₂, ⟨⟨s₁, ⟨hpath, hfree, hgo⟩, htotal⟩, hload⟩, hsource, hfields, hwriter,
      by rw [hp]⟩, by rw [hp]⟩
  · rintro ⟨rfl, ⟨loader, c, u, ⟨⟨s₁, hgo, htotal⟩, hload⟩, hsource, hfields, hwriter, hpool⟩, hreplaces⟩
    refine ⟨loader, c, s₁, u, hgo.path, hgo.free, hgo.replace, hload, htotal, hsource, hfields, hwriter,
      ?_⟩
    rw [← hreplaces, ← hpool]

/-- The question about an old file is answered no exactly if there is one and the words say so. -/
theorem askReplace_false {output : Path} :
    (∃ t, (askReplace disk output).run s = (.ok false, t)) ↔
      disk.exists output = true ∧ ∃ rest, Replies ["N", "n"] s.answers rest := by
  unfold askReplace
  cases hexists : disk.exists output with
  | false =>
    constructor
    · rintro ⟨t, h⟩
      cases h
    · rintro ⟨h, -⟩
      cases h
  | true =>
    rw [if_pos rfl]
    constructor
    · rintro ⟨t, h⟩
      exact ⟨rfl, t.answers, answered_clear.mp (Dialog.ask_answered h)⟩
    · rintro ⟨-, rest, h⟩
      have hno : Answered Dialog.judgeClear s.answers false rest := answered_clear.mpr h
      obtain ⟨said, hsaid⟩ := Dialog.ask_of_answered "Clear existing data? Y/N: " hno s.events
      exact ⟨_, hsaid⟩

/-- It is answered yes only if there is no old file or the words say so. -/
theorem askReplace_true {output : Path} {t : Session}
    (h : (askReplace disk output).run s = (.ok true, t)) (hexists : disk.exists output = true) :
    Replies ["Y", "y"] s.answers t.answers := by
  rw [askReplace, if_pos hexists] at h
  exact answered_clear.mp (Dialog.ask_answered h)

/-- A run that keeps an old file stops at the question about it. -/
theorem prepare_none {output : Path} {t : Session} (h : (q.prepare disk).run s = (.ok (output, none), t)) :
    q.Stops disk s (.ok 0) := by
  rw [prepare_eq] at h
  obtain ⟨path, s₁, hpath, h⟩ := run_bind_ok.mp h
  obtain ⟨_, s₂, hchecked, h⟩ := run_bind_ok.mp h
  obtain ⟨go, s₃, hgo, h⟩ := run_bind_ok.mp h
  obtain ⟨houtput, rfl⟩ := lift_ok hpath
  obtain ⟨hfree, rfl⟩ := lift_ok hchecked
  cases go with
  | true =>
    rw [if_pos rfl] at h
    obtain ⟨p, s₄, -, h⟩ := run_bind_ok.mp h
    cases h
  | false =>
    obtain ⟨hexists, rest, hreplies⟩ := askReplace_false.mp ⟨s₃, hgo⟩
    exact .kept houtput hfree hexists hreplies

/-- A run that makes no plan stops at the first step that fails. -/
theorem plan_error {output : Path} {e : Failure} {t u : Session} (hgo : q.Cleared disk s output t)
    (h : (q.plan disk output (disk.exists output)).run t = (.error e, u)) :
    q.Stops disk s (.error e) := by
  rw [plan_eq] at h
  rcases run_bind_error.mp h with hloader | ⟨loader, s₁, hloader, hrest⟩
  · obtain ⟨d, hd, rfl⟩ := lift_error hloader
    exact .schema hgo hd
  obtain ⟨hloaded, rfl⟩ := lift_ok hloader
  rcases run_bind_error.mp hrest with htotal | ⟨total, s₂, htotal, hrest⟩
  · exact .count hgo hloaded htotal
  have hcounted : q.Counted disk s output loader total s₂ := ⟨⟨_, hgo, htotal⟩, hloaded⟩
  rcases run_bind_error.mp hrest with hsource | ⟨source, s₃, hsource, hsettle⟩
  · obtain ⟨d, hd, rfl⟩ := lift_error hsource
    exact .source hcounted hd
  obtain ⟨hdrawn, rfl⟩ := lift_ok hsource
  rcases run_bind_error.mp hsettle with hfields | ⟨c, s₄, hfields, hcreate⟩
  · exact .fields hcounted hdrawn hfields
  rcases run_bind_error.mp hcreate with hwriter | ⟨writer, s₅, -, hdone⟩
  · obtain ⟨d, hd, rfl⟩ := lift_error hwriter
    exact .writer hcounted hdrawn hfields hd
  · cases hdone

theorem prepare_error {e : Failure} {t : Session} (h : (q.prepare disk).run s = (.error e, t)) :
    q.Stops disk s (.error e) := by
  rw [prepare_eq] at h
  rcases run_bind_error.mp h with hpath | ⟨output, s₁, hpath, hrest⟩
  · obtain ⟨d, hd, rfl⟩ := lift_error hpath
    exact .path hd
  obtain ⟨houtput, rfl⟩ := lift_ok hpath
  rcases run_bind_error.mp hrest with hchecked | ⟨_, s₂, hchecked, hasked⟩
  · obtain ⟨d, hd, rfl⟩ := lift_error hchecked
    exact .lookup houtput hd
  obtain ⟨hfree, rfl⟩ := lift_ok hchecked
  rcases run_bind_error.mp hasked with hgo | ⟨go, s₃, hgo, hplan⟩
  · exact .question houtput hfree hgo
  cases go with
  | false => cases hplan
  | true =>
    rw [if_pos rfl] at hplan
    rcases run_bind_error.mp hplan with hplan | ⟨p, s₄, -, hdone⟩
    · exact plan_error ⟨houtput, hfree, hgo⟩ hplan
    · cases hdone

/-- A run that may go on fails as its plan does. -/
theorem Cleared.prepare_error {output : Path} {e : Failure} {t u : Session}
    (hgo : q.Cleared disk s output t)
    (h : (q.plan disk output (disk.exists output)).run t = (.error e, u)) :
    (q.prepare disk).run s = (.error e, u) := by
  rw [prepare_eq]
  refine run_bind_error.mpr (.inr ⟨output, s, run_lift_of_ok hgo.path s, ?_⟩)
  refine run_bind_error.mpr (.inr ⟨(), s, run_lift_of_ok hgo.free s, ?_⟩)
  refine run_bind_error.mpr (.inr ⟨true, t, hgo.replace, ?_⟩)
  rw [if_pos rfl]
  exact run_bind_error.mpr (.inl h)

/-- What is left of a plan once the schema is read and the number of records is known. -/
def planFrom (q : Request σ) (disk : Disk) (output : Path) (loader : Schema.Loader) (total : Int) :
    Dialog (Plan σ) :=
  lift .defect q.source >>= fun source => settle loader.fields >>= fun c =>
    lift id (Writer.create q.options.format loader.names q.options.interval c.kinds
      loader.document q.dialect) >>= fun writer =>
        pure ⟨output, disk.exists output, total, c.pool, source, writer⟩

theorem Counted.prepare_error {output : Path} {loader : Schema.Loader} {total : Int} {e : Failure}
    {t u : Session} (hgo : q.Counted disk s output loader total t)
    (h : (q.planFrom disk output loader total).run t = (.error e, u)) :
    (q.prepare disk).run s = (.error e, u) := by
  obtain ⟨v, hcleared, htotal⟩ := hgo.cleared
  refine hcleared.prepare_error ?_
  rw [plan_eq]
  refine run_bind_error.mpr (.inr ⟨loader, v, run_lift_of_ok hgo.loaded v, ?_⟩)
  exact run_bind_error.mpr (.inr ⟨total, t, htotal, h⟩)

/-- A run that stops makes no plan: it fails, or it has only found a file that is to be kept. -/
theorem Stops.prepare {r : Except Failure Nat} (h : q.Stops disk s r) :
    ∃ t, (∃ e, r = .error e ∧ (q.prepare disk).run s = (.error e, t)) ∨
      ∃ output, r = .ok 0 ∧ (q.prepare disk).run s = (.ok (output, none), t) := by
  cases h with
  | path h =>
    refine ⟨s, .inl ⟨_, rfl, ?_⟩⟩
    rw [prepare_eq]
    exact run_bind_error.mpr (.inl (run_lift_of_error h s))
  | lookup hpath h =>
    refine ⟨s, .inl ⟨_, rfl, ?_⟩⟩
    rw [prepare_eq]
    refine run_bind_error.mpr (.inr ⟨_, s, run_lift_of_ok hpath s, ?_⟩)
    exact run_bind_error.mpr (.inl (run_lift_of_error h s))
  | @question output e t hpath hfree h =>
    refine ⟨t, .inl ⟨e, rfl, ?_⟩⟩
    rw [prepare_eq]
    refine run_bind_error.mpr (.inr ⟨output, s, run_lift_of_ok hpath s, ?_⟩)
    refine run_bind_error.mpr (.inr ⟨(), s, run_lift_of_ok hfree s, ?_⟩)
    exact run_bind_error.mpr (.inl h)
  | @kept output rest hpath hfree hexists h =>
    obtain ⟨t, ht⟩ := askReplace_false.mpr ⟨hexists, rest, h⟩
    refine ⟨t, .inr ⟨output, rfl, ?_⟩⟩
    rw [prepare_eq]
    refine run_bind_ok.mpr ⟨output, s, run_lift_of_ok hpath s, ?_⟩
    refine run_bind_ok.mpr ⟨(), s, run_lift_of_ok hfree s, ?_⟩
    exact run_bind_ok.mpr ⟨false, t, ht, rfl⟩
  | @schema output e t hgo h =>
    refine ⟨t, .inl ⟨e, rfl, hgo.prepare_error ?_⟩⟩
    rw [plan_eq]
    exact run_bind_error.mpr (.inl (run_lift_of_error h t))
  | @count output loader e t u hgo hload h =>
    refine ⟨u, .inl ⟨e, rfl, hgo.prepare_error ?_⟩⟩
    rw [plan_eq]
    refine run_bind_error.mpr (.inr ⟨loader, t, run_lift_of_ok hload t, ?_⟩)
    exact run_bind_error.mpr (.inl h)
  | @source output loader total d t hgo h =>
    refine ⟨t, .inl ⟨_, rfl, hgo.prepare_error ?_⟩⟩
    exact run_bind_error.mpr (.inl (run_lift_of_error h t))
  | @fields output loader total source e t u hgo hsource h =>
    refine ⟨u, .inl ⟨e, rfl, hgo.prepare_error ?_⟩⟩
    refine run_bind_error.mpr (.inr ⟨source, t, run_lift_of_ok hsource t, ?_⟩)
    exact run_bind_error.mpr (.inl h)
  | @writer output loader total source c e t u hgo hsource hfields h =>
    refine ⟨u, .inl ⟨e, rfl, hgo.prepare_error ?_⟩⟩
    refine run_bind_error.mpr (.inr ⟨source, t, run_lift_of_ok hsource t, ?_⟩)
    refine run_bind_error.mpr (.inr ⟨c, u, hfields, ?_⟩)
    exact run_bind_error.mpr (.inl (run_lift_of_error h u))

/-- **A run stops exactly if it does not settle everything.** -/
theorem stops_or_configured :
    (∃ r, q.Stops disk s r) ↔ ¬∃ p t, q.Configured disk s p t := by
  constructor
  · rintro ⟨r, hr⟩ ⟨p, t, hp⟩
    have hplan := configured_iff.mpr ⟨rfl, hp⟩
    rcases hr.prepare with ⟨u, ⟨e, -, hu⟩ | ⟨output, -, hu⟩⟩
    · cases hplan.symm.trans hu
    · cases hplan.symm.trans hu
  · intro h
    rcases hp : (q.prepare disk).run s with ⟨e | ⟨output, _ | p⟩, t⟩
    · exact ⟨_, prepare_error hp⟩
    · exact ⟨_, prepare_none hp⟩
    · exact absurd ⟨p, t, (configured_iff.mp hp).2⟩ h

end Request

/-! ## Files -/

namespace Disk

/-- A change of the files that leaves all of them but the one at a path. -/
def Spares (path : Path) (before after : Disk) : Prop :=
  ∀ f, before.settle path ≠ .ok f → Ledger.get? after.files f = Ledger.get? before.files f

theorem Spares.refl (path : Path) (d : Disk) : d.Spares path d := fun _ _ => rfl

/-- Fewer files make no directory. -/
theorem hasDirectory_of_sublist {d : Disk} {files : Ledger Path Content} (h : files.Sublist d.files)
    {q : Path} (hq : { d with files := files }.hasDirectory q = true) : d.hasDirectory q = true := by
  unfold hasDirectory at hq ⊢
  rw [Bool.or_eq_true] at hq ⊢
  rcases hq with hq | hq
  · exact .inl hq
  · obtain ⟨e, he, hwithin⟩ := List.any_eq_true.mp hq
    exact .inr (List.any_eq_true.mpr ⟨e, h.mem he, hwithin⟩)

/-- A removal leaves all other files, and leads the path nowhere else. -/
theorem remove_ok {d cleared : Disk} {path : Path} (h : d.remove path = .ok cleared) :
    d.Spares path cleared ∧ ∀ f, cleared.settle path = .ok f → d.settle path = .ok f := by
  unfold remove at h
  cases hp : d.settle path with
  | error e =>
    rw [hp] at h
    cases h
  | ok p =>
    rw [hp, Except.bind] at h
    split at h
    · cases h
    · cases h
      refine ⟨fun f hf => ?_, fun f hf => ?_⟩
      · have hne : f ≠ p := fun hfp => hf (hfp ▸ hp)
        exact Ledger.get?_filter_ne hne d.files
      · rw [← hp]
        exact settleFrom_mono (fun q => hasDirectory_of_sublist List.filter_sublist) hf

theorem write_spares (d : Disk) (path : Path) (c : Content) : d.Spares path (d.write path c) := by
  intro f hf
  unfold write
  split
  · rename_i p hp
    have hne : p ≠ f := by
      rintro rfl
      exact hf hp
    exact (Ledger.get?_set d.files p f c).trans (if_neg hne)
  · rfl

/-- A change after another one leaves what both leave. -/
theorem Spares.trans {path : Path} {d₁ d₂ d₃ : Disk} (h : d₁.Spares path d₂) (h' : d₂.Spares path d₃)
    (hpath : ∀ f, d₂.settle path = .ok f → d₁.settle path = .ok f) : d₁.Spares path d₃ :=
  fun f hf => (h' f fun hf' => hf (hpath f hf')).trans (h f hf)

end Disk

variable {σ : Type} [Source σ]

/-- Carrying out a plan clears the output file and writes it, or does not come to that. -/
theorem Plan.disk_of_execute (p : Plan σ) (disk : Disk) (s : Session) :
    (p.execute disk s).disk = disk ∨ ∃ cleared, p.clear disk = .ok cleared ∧
      ((p.execute disk s).disk = cleared ∨ ∃ c, (p.execute disk s).disk = cleared.write p.output c) := by
  cases hclear : p.clear disk with
  | error d =>
    refine .inl ?_
    unfold Plan.execute
    rw [hclear]
  | ok cleared =>
    refine .inr ⟨cleared, rfl, ?_⟩
    rcases hproduce : produce p.pool p.source p.total (p.opened cleared) with ⟨result, v⟩
    rw [(execute_of_produce hclear hproduce s).2]
    cases v.file with
    | none => exact .inl rfl
    | some c => exact .inr ⟨c, rfl⟩

omit [Source σ] in
/-- Clearing the output file leaves all others, and leads its path nowhere else. -/
theorem Plan.clear_ok {p : Plan σ} {disk cleared : Disk} (h : p.clear disk = .ok cleared) :
    disk.Spares p.output cleared ∧ ∀ f, cleared.settle p.output = .ok f → disk.settle p.output = .ok f := by
  unfold Plan.clear at h
  split at h
  · exact Disk.remove_ok h
  · cases h
    exact ⟨.refl _ _, fun _ hf => hf⟩

/-- **Carrying out a plan leaves all files but its output file.** -/
theorem Plan.execute_spares (p : Plan σ) (disk : Disk) (s : Session) :
    disk.Spares p.output (p.execute disk s).disk := by
  rcases p.disk_of_execute disk s with h | ⟨cleared, hclear, h | ⟨c, h⟩⟩
  · rw [h]
    exact .refl _ _
  · rw [h]
    exact (Plan.clear_ok hclear).1
  · obtain ⟨hspares, hpath⟩ := Plan.clear_ok hclear
    rw [h]
    exact hspares.trans (cleared.write_spares _ c) hpath

/-- A file is new, changed or gone only if it is the output file. -/
theorem Plan.settle_of_changed {p : Plan σ} {disk : Disk} {s : Session} {f : Path}
    (h : Ledger.get? (p.execute disk s).disk.files f ≠ Ledger.get? disk.files f) :
    disk.settle p.output = .ok f := by
  by_contra hne
  exact h (p.execute_spares disk s f hne)

/-- A path that leads to a file is there. -/
theorem Disk.exists_of_file {disk : Disk} {path f : Path} (hpath : disk.settle path = .ok f)
    (hf : Ledger.get? disk.files f ≠ none) : disk.exists path = true := by
  simp only [Disk.exists, hpath, Disk.hasFile, Option.isSome_iff_ne_none.mpr hf, Bool.true_or]

/-! ## Runs -/

namespace Request

variable {q : Request σ} {disk : Disk} {s : Session}

theorem run_of_stops {r : Except Failure Nat} (h : q.Stops disk s r) :
    (q.run disk s).result = r ∧ (q.run disk s).disk = disk := by
  unfold run
  rcases h.prepare with ⟨t, ⟨e, rfl, hp⟩ | ⟨output, rfl, hp⟩⟩
  · rw [hp]
    exact ⟨rfl, rfl⟩
  · rw [hp]
    exact ⟨rfl, rfl⟩

theorem run_of_configured {p : Plan σ} {t : Session} (h : q.Configured disk s p t) :
    q.run disk s = p.execute disk t := run_of_prepare (configured_iff.mpr ⟨rfl, h⟩)

/-- A file is new, changed or gone only after everything was settled, and if it was there, after a yes. -/
theorem configured_of_changed {f : Path}
    (h : Ledger.get? (q.run disk s).disk.files f ≠ Ledger.get? disk.files f) :
    ∃ p t, q.Configured disk s p t ∧ disk.settle p.output = .ok f ∧
      (Ledger.get? disk.files f ≠ none → ∃ rest, Replies ["Y", "y"] s.answers rest) := by
  by_cases hp : ∃ p t, q.Configured disk s p t
  · obtain ⟨p, t, hp⟩ := hp
    rw [run_of_configured hp] at h
    have houtput := Plan.settle_of_changed h
    refine ⟨p, t, hp, houtput, fun hf => ?_⟩
    obtain ⟨loader, c, u, ⟨⟨v, hgo, -⟩, -⟩, -⟩ := hp.steps
    exact ⟨v.answers, askReplace_true hgo.replace (Disk.exists_of_file houtput hf)⟩
  · obtain ⟨r, hr⟩ := stops_or_configured.mpr hp
    rw [(run_of_stops hr).2] at h
    exact absurd rfl h

end Request

/-- **No file changes before a run has settled everything.** A run stops if it has no output path to look
for, if the question whether to replace a file fails or is answered no, if its schema cannot be loaded, if the
question for the number of records fails, if there is no source, if a field cannot be configured, or if there
can be no writer; it then ends accordingly, with all files as they were. It does so exactly if it does not
get to settle everything. A file is new, changed or gone only if it did and the output path leads there;
and if the file was there before, only if the answer about it was yes. -/
theorem files_of_run (q : Request σ) (disk : Disk) (s : Session) :
    (∀ r, q.Stops disk s r → (q.run disk s).result = r ∧ (q.run disk s).disk = disk) ∧
    ((∃ r, q.Stops disk s r) ↔ ¬∃ p t, q.Configured disk s p t) ∧
    ∀ f, Ledger.get? (q.run disk s).disk.files f ≠ Ledger.get? disk.files f →
      ∃ p t, q.Configured disk s p t ∧ disk.settle p.output = .ok f ∧
        (Ledger.get? disk.files f ≠ none → ∃ rest, Replies ["Y", "y"] s.answers rest) :=
  ⟨fun _ => Request.run_of_stops, Request.stops_or_configured, fun _ => Request.configured_of_changed⟩

/-- An old file of tickets stays after a no, and goes after a yes and all other answers. -/
theorem files_of_run_tickets :
    (ticketRequest.run ticketDisk { answers := ["maybe", " n "] }).result = .ok 0 ∧
    (ticketRequest.run ticketDisk { answers := ["maybe", " n "] }).disk = ticketDisk ∧
    ∃ p t rest, ticketRequest.Configured ticketDisk ticketAnswers p t ∧
      ticketDisk.settle p.output = .ok ⟨"", ["ticket.csv"]⟩ ∧
      Replies ["Y", "y"] ticketAnswers.answers rest := by
  have hno : Replies ["N", "n"] ["maybe", " n "] [] := ⟨["maybe"], " n ", rfl, by decide, by decide⟩
  have hpath : ticketRequest.outputPath = .ok ⟨"", ["ticket.csv"]⟩ := by decide +kernel
  have hkept : ticketRequest.Stops ticketDisk { answers := ["maybe", " n "] } (.ok 0) :=
    .kept hpath (by decide +kernel) (by decide +kernel) hno
  obtain ⟨hresult, hdisk⟩ := (files_of_run ticketRequest ticketDisk _).1 _ hkept
  refine ⟨hresult, hdisk, ?_⟩
  obtain ⟨p, t, hp, houtput, hyes⟩ := (files_of_run ticketRequest ticketDisk ticketAnswers).2.2
    ⟨"", ["ticket.csv"]⟩ (by decide +kernel)
  obtain ⟨rest, hrest⟩ := hyes (by decide +kernel)
  exact ⟨p, t, rest, hp, houtput, hrest⟩

/-! ## Programs -/

namespace World

/-- The run that a program comes to. -/
def request (w : World) (a : Arguments) (options : RunOptions) : Request Supply where
  schema := .ofString a.schema
  options := options
  output := a.result.map Path.ofString
  total := a.count
  source := Supply.ofSeed (options.seed.getD w.clock) w.normal
  dialect := w.dialect

theorem conclude_disk (o : Outcome) : (conclude o).2 = o.disk := by
  unfold conclude
  split
  · rfl
  · split <;> rfl

/-- A program leaves all files, or it is a run. -/
theorem disk_of_program (w : World) : w.program.2 = w.disk ∨ ∃ a options answers,
    readArguments w.arguments = .ok a ∧ w.options a = .ok options ∧
    Dialog.answersOf w.disk (a.settings.map Path.ofString) w.input = .ok answers ∧
    w.program.2 = ((w.request a options).run w.disk ⟨answers, []⟩).disk := by
  unfold program
  cases ha : readArguments w.arguments with
  | error u => exact .inl rfl
  | ok a =>
    dsimp only
    unfold serve
    cases ho : w.options a with
    | error d => exact .inl rfl
    | ok options =>
      dsimp only
      split
      · exact .inl rfl
      · split
        · exact .inl rfl
        · exact .inl rfl
        · unfold start
          cases hs : Dialog.answersOf w.disk (a.settings.map Path.ofString) w.input with
          | error e => exact .inl rfl
          | ok answers => exact .inr ⟨a, options, answers, rfl, ho, hs, conclude_disk _⟩

/-- **No file changes before a program has settled everything**, whatever it is started with. -/
theorem files_of_program {w : World} {f : Path}
    (h : Ledger.get? w.program.2.files f ≠ Ledger.get? w.disk.files f) :
    ∃ a options answers p t, readArguments w.arguments = .ok a ∧ w.options a = .ok options ∧
      Dialog.answersOf w.disk (a.settings.map Path.ofString) w.input = .ok answers ∧
      (w.request a options).Configured w.disk ⟨answers, []⟩ p t ∧ w.disk.settle p.output = .ok f ∧
      (Ledger.get? w.disk.files f ≠ none → ∃ rest, Replies ["Y", "y"] answers rest) := by
  rcases w.disk_of_program with hsame | ⟨a, options, answers, ha, ho, hs, hrun⟩
  · rw [hsame] at h
    exact absurd rfl h
  · rw [hrun] at h
    obtain ⟨p, t, hp, houtput, hyes⟩ := Request.configured_of_changed h
    exact ⟨a, options, answers, p, t, ha, ho, hs, hp, houtput, hyes⟩

end World

end RecordForge
