import RecordForge.Draw.Script
import RecordForge.Proofs.Talks

/-!
# The questions of a run, laid open

Everything that a run asks is one talk: whether to replace a file, how many records to make, and for each
field of the schema the questions about its unions and its strategy. It settles what `prepare` settles,
and keeps the way that each field went.

* `inquire`, `interview`: the talk about a field, and that of a run.
* `run_inquire`, `prepare_eq_interview`: the dialogs that they stand for.
* **`run_insert_refused`**: a refused answer, or one that asks for help, has no effect on a run beyond
  what is written for it.
-/

namespace RecordForge

namespace Dialog

variable {name : String}

/-! ## Fields -/

/-- Inquire after the strategy of a field. -/
def inquireStrategy (name : String) (d : Descriptor) : Talk Strategy :=
  match Command.grammar? d.kind with
  | none => .fail (.unsupported d.kind)
  | some g => .put (.strategy g name d)

/-- Inquire after a field that is no union. -/
def inquirePlain (name : String) (d : Descriptor) : Talk Resolution := do
  let strategy ← inquireStrategy name d
  match strategy.generator d with
  | .ok core => return ⟨[], d, strategy, core⟩
  | .error e => .fail e

/-- Inquire after the probability of null, if a union offers it. -/
def inquireOdds (name : String) (nullable : Bool) : Talk (Option Float) :=
  if nullable then some <$> Talk.put (.probability name) else pure none

/-- Inquire after the member that a union is generated as, if it has several. -/
def inquireMember (name : String) : List Descriptor → Talk Descriptor
  | [] => .fail (.emptyUnion name)
  | [m] => pure m
  | choices => .put (.member name choices)

mutual

/-- Inquire after a field. -/
def inquire (name : String) : Descriptor → Talk Resolution
  | ⟨n, .union, symbols, members, nullable⟩ => do
    let odds ← inquireOdds name nullable
    let selected ← inquireMember name (Descriptor.choices ⟨n, .union, symbols, members, nullable⟩)
    let r ← inquireAs name selected members
    return { r with path := ⟨⟨n, .union, symbols, members, nullable⟩, odds⟩ :: r.path }
  | d => inquirePlain name d

/-- Inquire after a field that is generated as one of some members. -/
def inquireAs (name : String) (selected : Descriptor) : List Descriptor → Talk Resolution
  | [] => .fail (.emptyUnion name)
  | m :: rest => if m = selected then inquire name m else inquireAs name selected rest

end

/-- Inquire after fields in order: what they settle, and the way that each of them went. -/
def inquireFields (c : Configuration) : List Descriptor → Talk (Configuration × List Resolution)
  | [] => pure (c, [])
  | d :: rest => do
    let r ← inquire d.name d
    let (c, rs) ← inquireFields (c.settle d.name r.generator r.leaf.kind) rest
    return (c, r :: rs)

theorem run_inquireStrategy (d : Descriptor) : (inquireStrategy name d).run = askStrategy name d := by
  unfold inquireStrategy askStrategy
  cases Command.grammar? d.kind with
  | none => rfl
  | some g => exact Talk.run_put _

theorem run_inquirePlain (d : Descriptor) : (inquirePlain name d).run = resolvePlain name d := by
  unfold inquirePlain resolvePlain
  rw [Talk.run_bind, run_inquireStrategy]
  congr 1
  funext strategy
  cases strategy.generator d <;> rfl

theorem run_inquireOdds (nullable : Bool) : (inquireOdds name nullable).run = askOdds name nullable := by
  cases nullable with
  | false => rfl
  | true =>
    rw [inquireOdds, if_pos rfl, Talk.run_map, Talk.run_put]
    rfl

theorem run_inquireMember : ∀ choices : List Descriptor,
    (inquireMember name choices).run = selectMember name choices
  | [] => rfl
  | [_] => rfl
  | _ :: _ :: _ => Talk.run_put _

mutual

/-- The talk about a field stands for the dialog that resolves it. -/
theorem run_inquire : ∀ d : Descriptor, (inquire name d).run = resolve name d
  | ⟨n, kind, symbols, members, nullable⟩ => by
    have hm : ∀ selected, (inquireAs name selected members).run = resolveMember name selected members :=
      fun selected => run_inquireAs selected members
    cases kind with
    | union =>
      simp only [inquire, resolve, Talk.run_bind, run_inquireOdds, run_inquireMember, hm,
        Talk.run_pure]
    | _ => simp only [inquire, resolve, run_inquirePlain]

theorem run_inquireAs (selected : Descriptor) : ∀ members : List Descriptor,
    (inquireAs name selected members).run = resolveMember name selected members
  | [] => rfl
  | m :: rest => by
    simp only [inquireAs, resolveMember]
    split
    · exact run_inquire m
    · exact run_inquireAs selected rest

end

/-- The talk about all fields stands for the dialog that settles them. -/
theorem run_inquireFields : ∀ (fields : List Descriptor) (c : Configuration) (s : Session),
    (Prod.fst <$> (inquireFields c fields).run).run s = match configureFields c fields s with
      | (none, c, s) => (.ok c, s)
      | (some e, _, s) => (.error e, s)
  | [], c, s => rfl
  | d :: rest, c, s => by
    have hchain : Prod.fst <$> (inquireFields c (d :: rest)).run = resolve d.name d >>= fun r =>
        Prod.fst <$> (inquireFields (c.settle d.name r.generator r.leaf.kind) rest).run := by
      simp only [inquireFields, Talk.run_bind, Talk.run_pure, run_inquire, map_eq_pure_bind,
        bind_assoc, pure_bind]
    rw [hchain, run_bind, configureFields, configure_eq_map_resolve, map_eq_pure_bind, run_bind]
    rcases (resolve d.name d).run s with ⟨e | r, t⟩
    · rfl
    · exact run_inquireFields rest _ t

end Dialog

open Dialog

/-! ## Runs -/

/-- What a run has settled once all questions are answered, with the way that each field went. -/
structure Settled (σ : Type) where
  resolutions : List Resolution
  configuration : Configuration
  plan : Plan σ

namespace Request

variable {σ : Type} {q : Request σ} {disk : Disk}

/-- Inquire after the number of records, unless it is given. -/
def inquireTotal (q : Request σ) : Talk Int :=
  match q.total with
  | some n => pure n
  | none => .put .count

/-- Inquire whether to replace a file, if it is there. -/
def inquireReplace (disk : Disk) (output : Path) : Talk Bool :=
  if disk.exists output then .put .clear else pure true

/-- Inquire after everything that a plan needs. -/
def inquirePlan (q : Request σ) (disk : Disk) (output : Path) (replaces : Bool) :
    Talk (Settled σ) := do
  let loader ← Talk.lift id (Schema.Loader.ofFile disk q.schema)
  let total ← q.inquireTotal
  let source ← Talk.lift .defect q.source
  let (c, rs) ← inquireFields {} loader.fields
  let writer ← Talk.lift id
    (Writer.create q.options.format loader.names q.options.interval c.kinds loader.document q.dialect)
  return ⟨rs, c, output, replaces, total, c.pool, source, writer⟩

/-- Everything that a run asks. Without a plan an existing file is kept. -/
def interview (q : Request σ) (disk : Disk) : Talk (Path × Option (Settled σ)) := do
  let output ← Talk.lift .defect q.outputPath
  let _ ← Talk.lift .defect (checked disk output)
  let go ← inquireReplace disk output
  if go then
    let settled ← q.inquirePlan disk output (disk.exists output)
    return (output, some settled)
  else return (output, none)

theorem run_inquireTotal : q.inquireTotal.run = q.askTotal := by
  unfold inquireTotal askTotal
  cases q.total with
  | some n => rfl
  | none => exact Talk.run_put _

theorem run_inquireReplace (output : Path) :
    (inquireReplace disk output).run = askReplace disk output := by
  unfold inquireReplace askReplace
  split
  · exact Talk.run_put _
  · rfl

theorem settle_eq (fields : List Descriptor) :
    settle fields = Prod.fst <$> (inquireFields {} fields).run := by
  funext s
  exact (run_inquireFields fields {} s).symm

theorem plan_eq_inquirePlan (output : Path) (replaces : Bool) :
    q.plan disk output replaces = Settled.plan <$> (q.inquirePlan disk output replaces).run := by
  rw [plan_eq]
  simp only [inquirePlan, Talk.run_bind, Talk.run_lift, Talk.run_pure, run_inquireTotal, settle_eq,
    map_eq_pure_bind, bind_assoc, pure_bind]

/-- **What a run prepares is what its talk settles**, with the ways of the fields forgotten. -/
theorem prepare_eq_interview : q.prepare disk =
    (fun x => (x.1, x.2.map Settled.plan)) <$> (q.interview disk).run := by
  rw [prepare_eq]
  simp only [interview, Talk.run_bind, Talk.run_lift, run_inquireReplace, map_eq_pure_bind,
    bind_assoc]
  congr 1
  funext output
  congr 1
  funext _
  congr 1
  funext go
  cases go with
  | false => rfl
  | true =>
    simp only [if_pos, plan_eq_inquirePlan, Talk.run_bind, Talk.run_pure, map_eq_pure_bind, bind_assoc,
      pure_bind, Option.map_some]

/-- What a run prepares in a session is what its talk settles there. -/
theorem run_prepare (q : Request σ) (disk : Disk) (s : Session) :
    (q.prepare disk).run s = match (q.interview disk).run.run s with
      | (.ok x, t) => (.ok (x.1, x.2.map Settled.plan), t)
      | (.error e, t) => (.error e, t) := by
  rw [prepare_eq_interview, map_eq_pure_bind, run_bind]
  rcases (q.interview disk).run.run s with ⟨_ | _, _⟩ <;> rfl

/-! ## What comes after the questions -/

variable [Source σ]

/-- What is done to the files once all questions are answered, and what is written for it, does not
depend on the dialog. -/
theorem execute_frame (p : Plan σ) (disk : Disk) : ∃ result later files, ∀ s : Session,
    p.execute disk s = ⟨result, ⟨s.answers, s.events ++ later⟩, files⟩ := by
  obtain ⟨start, hstart⟩ : ∃ start, ∀ s : Session,
      (if p.replaces then s.write (.notice "Deleting existing data file.") else s) =
        ⟨s.answers, s.events ++ start⟩ := by
    cases p.replaces with
    | false => exact ⟨[], fun s => by rw [List.append_nil]; rfl⟩
    | true => exact ⟨_, fun s => rfl⟩
  unfold Plan.execute
  simp only [hstart]
  cases p.clear disk with
  | error d => exact ⟨_, _, _, fun s => rfl⟩
  | ok cleared =>
    dsimp only
    rcases produce p.pool p.source p.total { p.writer with obstacle := p.obstacle? cleared } with
      ⟨e | n, w⟩
    · simp only [Session.write, List.append_assoc]
      exact ⟨_, _, _, fun s => rfl⟩
    · simp only [Session.write, List.append_assoc]
      exact ⟨_, _, _, fun s => rfl⟩

/-- A run does what was settled, whatever was said to settle it. -/
theorem run_of_settled (q : Request σ) (disk : Disk) (x : Path × Option (Settled σ)) :
    ∃ result later files, ∀ s t : Session, (q.interview disk).run.run s = (.ok x, t) →
      q.run disk s = ⟨result, ⟨t.answers, t.events ++ later⟩, files⟩ := by
  obtain ⟨output, _ | settled⟩ := x
  · refine ⟨.ok 0, [.notice s!"Keeping existing data file '{output.toString}'. Nothing generated."],
      disk, fun s t h => ?_⟩
    unfold Request.run
    rw [run_prepare, h]
    rfl
  · obtain ⟨result, later, files, hexecute⟩ := execute_frame settled.plan disk
    refine ⟨result, later, files, fun s t h => ?_⟩
    unfold Request.run
    rw [run_prepare, h]
    exact hexecute t

/-- A run that succeeds has settled something. -/
theorem settled_of_run {s : Session} {n : Nat} (h : (q.run disk s).result = .ok n) :
    ∃ x t, (q.interview disk).run.run s = (.ok x, t) := by
  unfold Request.run at h
  rw [run_prepare] at h
  rcases hs : (q.interview disk).run.run s with ⟨e | x, t⟩
  · rw [hs] at h
    cases h
  · exact ⟨x, t, rfl⟩

/-- What is inserted after the first part of a list comes between its parts. -/
theorem insertIdx_append {α : Type} (x : α) (after : List α) : ∀ before : List α,
    (before ++ after).insertIdx before.length x = before ++ x :: after
  | [] => rfl
  | b :: before => by
    rw [List.cons_append, List.length_cons, List.insertIdx_succ_cons, insertIdx_append x after before]
    rfl

/-- **A refused answer, or one that asks for help, has no effect on a run beyond what is written for it.**
A run that succeeds uses up the first of its answers, and each of them while a question is waiting. If
an answer that has that question repeated comes in between, the run settles the same strategies,
generators, kinds and plan, makes the same records and files and leaves the same answers; it writes the
question once more, and the one text that answers it. -/
theorem run_insert_refused {s : Session} {n : Nat} (h : (q.run disk s).result = .ok n) :
    ∃ used settled, s.answers = used ++ (q.run disk s).session.answers ∧
      ((q.interview disk).run.run s).1 = .ok settled ∧
      ((q.prepare disk).run s).1 = .ok (settled.1, settled.2.map Settled.plan) ∧
      ∀ i < used.length, ∃ question, (q.interview disk).waiting (used.take i) = some question ∧
        ∀ line reply, (question.judge (trimmed line)).reply? = some reply →
          ((q.interview disk).run.run ⟨s.answers.insertIdx i line, s.events⟩).1 = .ok settled ∧
          ∃ said later,
            (q.run disk s).session.events = said ++ .prompt question.prompt :: later ∧
            q.run disk ⟨s.answers.insertIdx i line, s.events⟩ =
              ⟨.ok n, ⟨(q.run disk s).session.answers,
                said ++ .prompt question.prompt :: reply :: .prompt question.prompt :: later⟩,
                (q.run disk s).disk⟩ := by
  obtain ⟨x, t, hx⟩ := settled_of_run h
  obtain ⟨result, last, files, hrun⟩ := run_of_settled q disk x
  rw [hrun s t hx] at h ⊢
  obtain rfl : result = .ok n := h
  obtain ⟨answers, events⟩ := s
  obtain ⟨used, hused, hwaiting⟩ := Talk.run_ok hx
  refine ⟨used, x, hused, by rw [hx], by rw [run_prepare, hx], fun i hi => ?_⟩
  obtain ⟨question, hquestion⟩ := Option.isSome_iff_exists.mp (hwaiting i hi)
  refine ⟨question, hquestion, fun line reply hreply => ?_⟩
  -- The answers are cut at the question that is waiting; both runs go on from there alike.
  obtain ⟨outcome, unread, said, later, hbefore, hafter⟩ :=
    Talk.run_insert hquestion hreply (used.drop i ++ t.answers) events
  have hanswers : used.take i ++ (used.drop i ++ t.answers) = answers := by
    rw [← List.append_assoc, List.take_append_drop, ← hused]
  have hinsert : answers.insertIdx i line = used.take i ++ line :: (used.drop i ++ t.answers) := by
    have hlength : (used.take i).length = i := List.length_take_of_le (Nat.le_of_lt hi)
    rw [← hanswers, ← insertIdx_append, hlength]
  dsimp only
  rw [hanswers, hx] at hbefore
  cases hbefore
  rw [← hinsert] at hafter
  refine ⟨by rw [hafter], said, later ++ last, ?_, ?_⟩
  · simp only [List.append_assoc, List.cons_append]
  · rw [hrun _ _ hafter]
    simp only [List.append_assoc, List.cons_append]

end Request

/-- The schema of a record of one field, which may be null, a number or a text. -/
def guestSchema : String :=
  "\x7b\"type\": \"record\", \"name\": \"Table\", \"fields\": [" ++
    "\x7b\"name\": \"guests\", \"type\": [\"null\", \"int\", \"string\"]\x7d]\x7d"

/-- A run that is asked everything. -/
def guestRequest : Request Script where
  schema := ⟨"", ["table.avsc"]⟩
  options := .standard
  source := .ok {}

/-- The files before the run. -/
def guestDisk : Disk := ⟨[⟨"", []⟩], [(⟨"", ["table.avsc"]⟩, .text guestSchema)]⟩

/-- The answers of the run: how many records, how often null, which member, and how it goes on. -/
def guestAnswers : Session := { answers := ["1", "0.0", "int", "incr from 5"] }

/-- Help that is asked for before the member is named. -/
theorem run_insert_refused_help : ∃ said later,
    (guestRequest.run guestDisk guestAnswers).session.events =
      said ++ .prompt "Select type to generate for union 'guests': " :: later ∧
    (guestRequest.run guestDisk
        { answers := ["1", "0.0", "help", "int", "incr from 5"] }).session.events =
      said ++ .prompt "Select type to generate for union 'guests': " ::
        .notice "Enter one of the following: [int, string]." ::
        .prompt "Select type to generate for union 'guests': " :: later := by
  have hresult : (match guestRequest.run guestDisk guestAnswers with
      | ⟨.ok n, ⟨unread, _⟩, _⟩ => n == 1 && unread.isEmpty
      | _ => false) = true := by decide +kernel
  have hquestion : ((guestRequest.interview guestDisk).waiting ["1", "0.0"]).any (fun question =>
      question.prompt == "Select type to generate for union 'guests': " &&
        (question.judge (trimmed "help")).reply? ==
          some (.notice "Enter one of the following: [int, string].")) = true := by decide +kernel
  have hrun : (guestRequest.run guestDisk guestAnswers).result = .ok 1 ∧
      (guestRequest.run guestDisk guestAnswers).session.answers = [] := by
    rcases hr : guestRequest.run guestDisk guestAnswers with ⟨e | n, ⟨unread, events⟩, files⟩
    · rw [hr] at hresult
      cases hresult
    · rw [hr] at hresult
      obtain ⟨hn, hunread⟩ := Bool.and_eq_true_iff.mp hresult
      exact ⟨congrArg _ (beq_iff_eq.mp hn), List.isEmpty_iff.mp hunread⟩
  obtain ⟨used, settled, hused, -, -, hinsert⟩ := Request.run_insert_refused hrun.1
  rw [hrun.2, List.append_nil] at hused
  subst hused
  obtain ⟨question, hwaiting, hreply⟩ := hinsert 2 (by decide)
  have hbefore : guestAnswers.answers.take 2 = ["1", "0.0"] := rfl
  rw [hbefore] at hwaiting
  rw [hwaiting, Option.any_some, Bool.and_eq_true, beq_iff_eq, beq_iff_eq] at hquestion
  obtain ⟨hprompt, hhelp⟩ := hquestion
  obtain ⟨-, said, later, hevents, hinserted⟩ := hreply "help" _ hhelp
  have hanswers : (⟨guestAnswers.answers.insertIdx 2 "help", guestAnswers.events⟩ : Session) =
      { answers := ["1", "0.0", "help", "int", "incr from 5"] } := rfl
  rw [hprompt] at hevents hinserted
  rw [hanswers] at hinserted
  exact ⟨said, later, hevents, by rw [hinserted]⟩

end RecordForge
