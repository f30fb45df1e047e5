import RecordForge.Program.Run
import RecordForge.Proofs.Resolution

/-!
# Plans

Everything that a run asks it asks before it touches a file: whether to replace one, how many records to
make, and how each field is generated. Here the dialog is taken apart into its steps.

* `prepare_eq`, `plan_eq`: the dialog as a chain.
* `plan_ok`, `prepare_ok`: what is settled when it succeeds.
* `prepare_iff`: the steps by which it succeeds.
-/

namespace RecordForge

/-- The options of a run that sets none. -/
def RunOptions.standard : RunOptions := {}

namespace Request

variable {σ : Type} {q : Request σ} {disk : Disk}

/-! ## Steps -/

/-- The question for the number of records, unless it is given. -/
def askTotal (q : Request σ) : Dialog Int :=
  match q.total with
  | some n => pure n
  | none => Dialog.askCount

/-- The question whether to replace a file, if it is there. -/
def askReplace (disk : Disk) (output : Path) : Dialog Bool :=
  if disk.exists output then Dialog.askClear else pure true

/-- A path that can be looked for. -/
def checked (disk : Disk) (output : Path) : Except Defect Unit :=
  match disk.refusal? output with
  | some d => .error d
  | none => .ok ()

theorem plan_eq (output : Path) (replaces : Bool) : q.plan disk output replaces =
    lift id (Schema.Loader.ofFile disk q.schema) >>= fun loader =>
      q.askTotal >>= fun total => lift .defect q.source >>= fun source =>
        settle loader.fields >>= fun c =>
          lift id (Writer.create q.options.format loader.names q.options.interval c.kinds
            loader.document q.dialect) >>= fun writer =>
              pure ⟨output, replaces, total, c.pool, source, writer⟩ := by
  unfold plan askTotal
  cases q.total <;> rfl

theorem prepare_eq : q.prepare disk =
    lift .defect q.outputPath >>= fun output => lift .defect (checked disk output) >>= fun _ =>
      askReplace disk output >>= fun go =>
        if go then q.plan disk output (disk.exists output) >>= fun p => pure (output, some p)
        else pure (output, none) := by
  unfold prepare
  congr 1
  funext output
  unfold checked askReplace
  cases disk.refusal? output with
  | none => by_cases he : disk.exists output = true <;> simp only [he] <;> rfl
  | some d => rfl

/-! ## What is settled -/

theorem lift_ok {ε α : Type} {wrap : ε → Failure} {x : Except ε α} {a : α} {s t : Session}
    (h : (lift wrap x).run s = (.ok a, t)) : x = .ok a ∧ t = s := by
  cases x with
  | ok b => cases h; exact ⟨rfl, rfl⟩
  | error e => cases h

theorem lift_error {ε α : Type} {wrap : ε → Failure} {x : Except ε α} {e : Failure} {s t : Session}
    (h : (lift wrap x).run s = (.error e, t)) : ∃ d, x = .error d ∧ e = wrap d := by
  cases x with
  | ok a => cases h
  | error d => cases h; exact ⟨d, rfl, rfl⟩

theorem settle_ok {fields : List Descriptor} {c : Dialog.Configuration} {s t : Session}
    (h : (settle fields).run s = (.ok c, t)) :
    Dialog.configureFields {} fields s = (none, c, t) := by
  change settle fields s = (.ok c, t) at h
  unfold settle at h
  split at h
  · rename_i hc
    cases h
    exact hc
  · cases h

/-- What a run has settled once all questions are answered. -/
theorem plan_ok {output : Path} {replaces : Bool} {p : Plan σ} {s t : Session}
    (h : (q.plan disk output replaces).run s = (.ok p, t)) :
    ∃ loader c s₁ s₂, Schema.Loader.ofFile disk q.schema = .ok loader ∧
      Dialog.configureFields {} loader.fields s₁ = (none, c, s₂) ∧
      Writer.create q.options.format loader.names q.options.interval c.kinds loader.document q.dialect =
        .ok p.writer ∧
      p.output = output ∧ p.pool = c.pool := by
  rw [plan_eq] at h
  obtain ⟨loader, s₁, hloader, h⟩ := run_bind_ok.mp h
  obtain ⟨total, s₂, -, h⟩ := run_bind_ok.mp h
  obtain ⟨source, s₃, -, h⟩ := run_bind_ok.mp h
  obtain ⟨c, s₄, hc, h⟩ := run_bind_ok.mp h
  obtain ⟨writer, s₅, hwriter, h⟩ := run_bind_ok.mp h
  cases h
  exact ⟨loader, c, s₃, s₄, (lift_ok hloader).1, settle_ok hc, (lift_ok hwriter).1, rfl, rfl⟩

/-- A run that goes on has made a plan. -/
theorem prepare_ok {output : Path} {p : Plan σ} {s t : Session}
    (h : (q.prepare disk).run s = (.ok (output, some p), t)) :
    ∃ u, (q.plan disk output (disk.exists output)).run u = (.ok p, t) := by
  rw [prepare_eq] at h
  obtain ⟨path, s₁, -, h⟩ := run_bind_ok.mp h
  obtain ⟨-, s₂, -, h⟩ := run_bind_ok.mp h
  obtain ⟨go, s₃, -, h⟩ := run_bind_ok.mp h
  cases go with
  | false => cases h
  | true =>
    rw [if_pos rfl] at h
    obtain ⟨p', s₄, hp, h⟩ := run_bind_ok.mp h
    cases h
    exact ⟨s₃, hp⟩

theorem run_lift_of_ok {ε α : Type} {wrap : ε → Failure} {x : Except ε α} {a : α} (h : x = .ok a)
    (s : Session) : (lift wrap x).run s = (.ok a, s) := by
  rw [h]
  rfl

theorem run_lift_of_error {ε α : Type} {wrap : ε → Failure} {x : Except ε α} {d : ε} (h : x = .error d)
    (s : Session) : (lift wrap x).run s = (.error (wrap d), s) := by
  rw [h]
  rfl

/-- A run makes a plan exactly by these steps, in this order: it may replace an old file, it is told or
asks how many records to make, and it settles the fields of its schema. -/
theorem prepare_iff {output : Path} {p : Plan σ} {s t : Session} :
    (q.prepare disk).run s = (.ok (output, some p), t) ↔
      ∃ loader c s₁ s₂, q.outputPath = .ok output ∧ checked disk output = .ok () ∧
        (askReplace disk output).run s = (.ok true, s₁) ∧
        Schema.Loader.ofFile disk q.schema = .ok loader ∧ q.askTotal.run s₁ = (.ok p.total, s₂) ∧
        q.source = .ok p.source ∧ (settle loader.fields).run s₂ = (.ok c, t) ∧
        Writer.create q.options.format loader.names q.options.interval c.kinds loader.document q.dialect =
          .ok p.writer ∧
        p = ⟨output, disk.exists output, p.total, c.pool, p.source, p.writer⟩ := by
  rw [prepare_eq]
  constructor
  · intro h
    obtain ⟨path, s₀, hpath, h⟩ := run_bind_ok.mp h
    obtain ⟨_, s₀', hchecked, h⟩ := run_bind_ok.mp h
    obtain ⟨go, s₁, hgo, h⟩ := run_bind_ok.mp h
    cases go with
    | false => cases h
    | true =>
      rw [if_pos rfl, plan_eq] at h
      obtain ⟨p', s₂, hp, h⟩ := run_bind_ok.mp h
      cases h
      obtain ⟨loader, s₃, hloader, hp⟩ := run_bind_ok.mp hp
      obtain ⟨total, s₄, htotal, hp⟩ := run_bind_ok.mp hp
      obtain ⟨source, s₅, hsource, hp⟩ := run_bind_ok.mp hp
      obtain ⟨c, s₆, hsettle, hp⟩ := run_bind_ok.mp hp
      obtain ⟨writer, s₇, hwriter, hp⟩ := run_bind_ok.mp hp
      cases hp
      obtain ⟨houtput, rfl⟩ := lift_ok hpath
      obtain ⟨hfree, rfl⟩ := lift_ok hchecked
      obtain ⟨hloaded, rfl⟩ := lift_ok hloader
      obtain ⟨hdrawn, rfl⟩ := lift_ok hsource
      obtain ⟨hcreated, rfl⟩ := lift_ok hwriter
      exact ⟨loader, c, _, _, houtput, hfree, hgo, hloaded, htotal, hdrawn, hsettle, hcreated, rfl⟩
  · rintro ⟨loader, c, s₁, s₂, hpath, hchecked, hgo, hloader, htotal, hsource, hsettle, hwriter, hp⟩
    rw [hp]
    refine run_bind_ok.mpr ⟨output, s, run_lift_of_ok hpath s, ?_⟩
    refine run_bind_ok.mpr ⟨(), s, run_lift_of_ok hchecked s, ?_⟩
    refine run_bind_ok.mpr ⟨true, s₁, hgo, ?_⟩
    rw [if_pos rfl, plan_eq]
    refine run_bind_ok.mpr ⟨_, t, ?_, rfl⟩
    refine run_bind_ok.mpr ⟨loader, s₁, run_lift_of_ok hloader s₁, ?_⟩
    refine run_bind_ok.mpr ⟨p.total, s₂, htotal, ?_⟩
    refine run_bind_ok.mpr ⟨p.source, s₂, run_lift_of_ok hsource s₂, ?_⟩
    refine run_bind_ok.mpr ⟨c, t, hsettle, ?_⟩
    exact run_bind_ok.mpr ⟨p.writer, t, run_lift_of_ok hwriter t, rfl⟩

end Request

end RecordForge
