import RecordForge.Proofs.Plans

/-!
# Dialogs as trees of questions

What a dialog does on a list of answers says little about what it would do on another list. A talk is
a dialog laid open: the question it asks, and how it goes on after each answer that can be accepted. Its
state after some answers is again a talk, so two runs can be compared answer by answer.

* `Question`: the five questions that can be asked, each with its prompt and its judgement.
* `Talk`, `Talk.run`: a tree of questions, and the dialog that it stands for.
* `Talk.after`, `Talk.said`: what one answer makes of a talk, and what is written for it.
* `Talk.waiting`: the question that is asked once some answers are used up.
* `Talk.run_uses`: a talk ends, with one question for each answer that it uses up, or one more.
* **`Talk.run_insert`**: an answer that is refused or asks for help changes nothing but what is written,
  and that by the repeated prompt and one text.
-/

namespace RecordForge

namespace Dialog

/-! ## Questions -/

/-- A question that is asked until an answer to it is accepted. -/
inductive Question where
  /-- Whether an existing file may be replaced. -/
  | clear
  /-- How many records to make. -/
  | count
  /-- The strategy of a field, in the grammar of its kind. -/
  | strategy (g : Command.Grammar) (name : String) (d : Descriptor)
  /-- How likely a union is null. -/
  | probability (name : String)
  /-- The member that a union is generated as. -/
  | member (name : String) (choices : List Descriptor)

namespace Question

/-- What is asked for. -/
abbrev Answer : Question → Type
  | clear => Bool
  | count => Int
  | strategy .. => Strategy
  | probability _ => Float
  | member .. => Descriptor

/-- The text of a question. -/
def prompt : Question → String
  | clear => "Clear existing data? Y/N: "
  | count => "How many records should be generated: "
  | strategy _ name d => strategyPrompt d.kind name
  | probability name => s!"Enter probability (0.0 - 1.0) that union '{name}' is null: "
  | member name _ => s!"Select type to generate for union '{name}': "

/-- What is made of an answer. -/
def judge : (q : Question) → String → Verdict q.Answer
  | clear => judgeClear
  | count => judgeCount
  | strategy g name d => judgeStrategy g name d
  | probability _ => judgeProbability
  | member _ choices => judgeMember choices

end Question

/-! ## Talks -/

/-- A dialog laid open. -/
inductive Talk (α : Type) where
  /-- It is over, with a result. -/
  | done (a : α)
  /-- It has failed. -/
  | fail (e : Failure)
  /-- It asks a question and goes on with the answer. -/
  | ask (q : Question) (next : q.Answer → Talk α)

namespace Talk

variable {α β : Type}

/-- One question. -/
def put (q : Question) : Talk q.Answer := .ask q .done

/-- A result without a question. -/
def lift {ε : Type} (wrap : ε → Failure) : Except ε α → Talk α
  | .ok a => .done a
  | .error e => .fail (wrap e)

/-- A talk, and another one that depends on its result. -/
def bind : Talk α → (α → Talk β) → Talk β
  | .done a, f => f a
  | .fail e, _ => .fail e
  | .ask q next, f => .ask q fun a => (next a).bind f

instance : Monad Talk where
  pure := .done
  bind := bind

/-- The dialog that a talk stands for. -/
def run : Talk α → Dialog α
  | .done a => pure a
  | .fail e => throw e
  | .ask q next => RecordForge.ask q.prompt q.judge >>= fun a => (next a).run

theorem run_pure (a : α) : (pure a : Talk α).run = pure a := rfl

theorem run_put (q : Question) : (put q).run = RecordForge.ask q.prompt q.judge := bind_pure _

theorem run_lift {ε : Type} (wrap : ε → Failure) (x : Except ε α) :
    (lift wrap x).run = Request.lift wrap x := by
  cases x <;> rfl

/-- The dialog of a chain is the chain of the dialogs. -/
theorem run_bind (t : Talk α) (f : α → Talk β) :
    (t >>= f).run = t.run >>= fun a => (f a).run := by
  induction t with
  | done a => exact (pure_bind a fun a => (f a).run).symm
  | fail e => rfl
  | ask q next ih =>
    show (RecordForge.ask q.prompt q.judge >>= fun a => (next a >>= f).run) = _
    rw [run, bind_assoc]
    congr 1
    funext a
    exact ih a

theorem run_map (f : α → β) (t : Talk α) : (f <$> t).run = f <$> t.run := by
  show (t >>= fun a => pure (f a)).run = _
  rw [run_bind, map_eq_pure_bind]
  rfl

/-! ## One answer -/

/-- What one answer makes of a talk: an accepted answer is gone on with, and after one that is refused
or asks for help the talk is where it was. -/
def after : Talk α → String → Talk α
  | .ask q next, line =>
    match q.judge (trimmed line) with
    | .accept a => next a
    | .explain _ => .ask q next
    | .reject _ => .ask q next
    | .abort e => .fail e
  | t, _ => t

/-- What is written for one answer. -/
def said : Talk α → String → List Event
  | .ask q _, line => .prompt q.prompt :: (q.judge (trimmed line)).reply?.toList
  | _, _ => []

/-- The question that is asked next. -/
def asked? : Talk α → Option Question
  | .ask q _ => some q
  | _ => none

/-- The question that is asked once some answers are used up, if the talk comes to one. -/
def waiting (t : Talk α) (answers : List String) : Option Question := (answers.foldl after t).asked?

theorem run_ask (q : Question) (next : q.Answer → Talk α) (s : Session) :
    (Talk.ask q next).run.run s = match askFrom q.prompt q.judge s.answers s.events with
      | (.ok a, t) => (next a).run.run t
      | (.error e, t) => (.error e, t) := by
  have hask : (RecordForge.ask q.prompt q.judge).run s = askFrom q.prompt q.judge s.answers s.events := rfl
  rw [run, RecordForge.run_bind, hask]
  rcases askFrom q.prompt q.judge s.answers s.events with ⟨_ | _, _⟩ <;> rfl

/-- A talk that asks a question uses one answer and goes on from what that makes of it. -/
theorem run_step {t : Talk α} (ht : t.asked?.isSome) (line : String) (rest : List String)
    (events : List Event) :
    t.run.run ⟨line :: rest, events⟩ = (t.after line).run.run ⟨rest, events ++ t.said line⟩ := by
  cases t with
  | done a => cases ht
  | fail e => cases ht
  | ask q next =>
    rw [run_ask]
    simp only [askFrom, after, said]
    cases q.judge (trimmed line) with
    | accept a => rfl
    | abort e => rfl
    | explain text => exact (run_ask q next ⟨rest, events ++ [.prompt q.prompt, .notice text]⟩).symm
    | reject text => exact (run_ask q next ⟨rest, events ++ [.prompt q.prompt, .diagnostic text]⟩).symm

/-! ## Many answers -/

/-- What is written for some answers, one after the other. -/
def saidFor : Talk α → List String → List Event
  | _, [] => []
  | t, line :: rest => t.said line ++ (t.after line).saidFor rest

/-- What a talk does and writes is the same whatever was written before it. -/
theorem run_frame : ∀ (t : Talk α) (answers : List String) (events : List Event),
    t.run.run ⟨answers, events⟩ = ((t.run.run ⟨answers, []⟩).1,
      ⟨(t.run.run ⟨answers, []⟩).2.answers, events ++ (t.run.run ⟨answers, []⟩).2.events⟩)
  | .done a, answers, events => by simp [run, RecordForge.run_pure]
  | .fail e, answers, events => by simp [run, RecordForge.run_throw]
  | .ask q next, [], events => by
    have hask (events : List Event) : ((Talk.ask q next).run).run ⟨[], events⟩ =
        (.error (.exhausted (trimmed q.prompt)), ⟨[], events ++ [.prompt q.prompt]⟩) := rfl
    rw [hask, hask, List.nil_append]
  | .ask q next, line :: rest, events => by
    have ht : (Talk.ask q next).asked?.isSome := rfl
    rw [run_step ht, run_step ht, run_frame _ rest (events ++ _), run_frame _ rest ([] ++ _)]
    simp only [List.nil_append, List.append_assoc]

/-- A talk that asks nothing waits for no answer. -/
theorem asked_of_waiting : ∀ (answers : List String) {t : Talk α},
    (t.waiting answers).isSome → t.asked?.isSome
  | [], _, h => h
  | line :: rest, t, h => by
    cases t with
    | done a => exact asked_of_waiting rest h
    | fail e => exact asked_of_waiting rest h
    | ask q next => rfl

/-- The answers up to a question that is waiting are used up one by one. -/
theorem run_append : ∀ {before : List String} {t : Talk α} (after : List String)
    (events : List Event), (t.waiting before).isSome →
      t.run.run ⟨before ++ after, events⟩ =
        (before.foldl Talk.after t).run.run ⟨after, events ++ t.saidFor before⟩
  | [], t, after, events, _ => by
    rw [saidFor, List.append_nil]
    rfl
  | line :: rest, t, after, events, h => by
    have hrest : ((t.after line).waiting rest).isSome := h
    rw [List.cons_append, run_step (asked_of_waiting _ h), run_append _ _ hrest, saidFor,
      List.append_assoc]
    rfl

/-- A talk that succeeds uses up the first of its answers, each while a question is waiting. -/
theorem run_ok : ∀ {answers : List String} {t : Talk α} {events : List Event} {a : α} {s : Session},
    t.run.run ⟨answers, events⟩ = (.ok a, s) →
      ∃ used, answers = used ++ s.answers ∧ ∀ i < used.length, (t.waiting (used.take i)).isSome
  | answers, .done a, events, _, s, h => by
    cases h
    exact ⟨[], rfl, nofun⟩
  | answers, .fail e, events, _, s, h => by cases h
  | [], .ask q next, events, _, s, h => by cases h
  | line :: rest, .ask q next, events, a, s, h => by
    rw [run_step rfl] at h
    obtain ⟨used, rfl, hused⟩ := run_ok h
    refine ⟨line :: used, rfl, fun i hi => ?_⟩
    cases i with
    | zero => rfl
    | succ i => exact hused i (Nat.lt_of_succ_lt_succ hi)

/-- What a talk makes of the answers that it uses up does not depend on those after them, nor on what was
written before. -/
theorem run_rest : ∀ {answers : List String} {t : Talk α} {events : List Event} {a : α} {s : Session},
    t.run.run ⟨answers, events⟩ = (.ok a, s) →
      ∃ used, answers = used ++ s.answers ∧ ∀ rest before, ∃ after,
        t.run.run ⟨used ++ rest, before⟩ = (.ok a, ⟨rest, after⟩)
  | answers, .done a, events, _, s, h => by
    cases h
    exact ⟨[], rfl, fun rest before => ⟨before, rfl⟩⟩
  | answers, .fail e, events, _, s, h => by cases h
  | [], .ask q next, events, _, s, h => by cases h
  | line :: rest, .ask q next, events, a, s, h => by
    rw [run_step rfl] at h
    obtain ⟨used, rfl, hused⟩ := run_rest h
    refine ⟨line :: used, rfl, fun rest' before => ?_⟩
    obtain ⟨after, hafter⟩ := hused rest' (before ++ (Talk.ask q next).said line)
    exact ⟨after, by rw [List.cons_append, run_step rfl, hafter]⟩

/-- Whether an event is a question. -/
def isPrompt : Event → Bool
  | .prompt _ => true
  | _ => false

/-- **A talk ends.** It uses up some of the answers from the front, and asks one question for each of them;
it asks one more only to find that there are no more answers. -/
theorem run_uses : ∀ (answers : List String) (t : Talk α) (events : List Event),
    ∃ used said result rest, t.run.run ⟨answers, events⟩ = (result, ⟨rest, events ++ said⟩) ∧
      answers = used ++ rest ∧
      (said.countP isPrompt = used.length ∨
        said.countP isPrompt = used.length + 1 ∧ rest = [] ∧
          ∃ prompt, result = .error (.exhausted prompt))
  | answers, .done a, events => ⟨[], [], _, answers, by rw [List.append_nil]; rfl, rfl, .inl rfl⟩
  | answers, .fail e, events => ⟨[], [], _, answers, by rw [List.append_nil]; rfl, rfl, .inl rfl⟩
  | [], .ask q next, events => ⟨[], [.prompt q.prompt], _, [], rfl, rfl, .inr ⟨rfl, rfl, _, rfl⟩⟩
  | line :: answers, .ask q next, events => by
    obtain ⟨used, said, result, rest, hrun, hanswers, hcount⟩ :=
      run_uses answers ((Talk.ask q next).after line) (events ++ (Talk.ask q next).said line)
    have hsaid : ((Talk.ask q next).said line).countP isPrompt = 1 := by
      simp only [Talk.said]
      cases q.judge (trimmed line) <;> rfl
    refine ⟨line :: used, (Talk.ask q next).said line ++ said, result, rest, ?_, ?_, ?_⟩
    · rw [run_step rfl, hrun, List.append_assoc]
    · rw [hanswers, List.cons_append]
    · rw [List.countP_append, hsaid, List.length_cons, Nat.add_comm 1]
      rcases hcount with hcount | ⟨hcount, hrest⟩
      · exact .inl (congrArg (· + 1) hcount)
      · exact .inr ⟨congrArg (· + 1) hcount, hrest⟩

/-! ## An answer too many -/

/-- After an answer that has its question repeated a talk is where it was, and has written the question
and one text. -/
theorem after_of_reply {t : Talk α} {q : Question} {line : String} {reply : Event}
    (ht : t.asked? = some q) (hr : (q.judge (trimmed line)).reply? = some reply) :
    t.after line = t ∧ t.said line = [.prompt q.prompt, reply] := by
  cases t with
  | done a => cases ht
  | fail e => cases ht
  | ask q' next =>
    cases ht
    simp only [after, said, hr]
    refine ⟨?_, rfl⟩
    cases hj : q.judge (trimmed line) with
    | accept a => rw [hj] at hr; cases hr
    | abort e => rw [hj] at hr; cases hr
    | explain text => rfl
    | reject text => rfl

/-- The first thing that a talk writes is the question that it asks, and what was written before it
makes no difference to it. -/
theorem run_of_asked {t : Talk α} {q : Question} (ht : t.asked? = some q) (answers : List String) :
    ∃ result unread later, ∀ events,
      t.run.run ⟨answers, events⟩ = (result, ⟨unread, events ++ .prompt q.prompt :: later⟩) := by
  cases t with
  | done a => cases ht
  | fail e => cases ht
  | ask q' next =>
    cases ht
    cases answers with
    | nil => exact ⟨_, _, [], fun events => rfl⟩
    | cons line rest =>
      rcases hrest : ((Talk.ask q next).after line).run.run ⟨rest, []⟩ with ⟨result, unread, later⟩
      refine ⟨result, unread, (q.judge (trimmed line)).reply?.toList ++ later, fun events => ?_⟩
      rw [run_step rfl, run_frame, hrest]
      simp only [said, List.append_assoc, List.cons_append]

/-- **An answer that has its question repeated has no effect beyond that**: it adds the question once
more and the text that answers it, and all else stays as it was. -/
theorem run_insert {t : Talk α} {before : List String} {q : Question} {line : String} {reply : Event}
    (hw : t.waiting before = some q) (hr : (q.judge (trimmed line)).reply? = some reply)
    (after : List String) (events : List Event) :
    ∃ result unread said later,
      t.run.run ⟨before ++ after, events⟩ = (result, ⟨unread, said ++ .prompt q.prompt :: later⟩) ∧
      t.run.run ⟨before ++ line :: after, events⟩ =
        (result, ⟨unread, said ++ .prompt q.prompt :: reply :: .prompt q.prompt :: later⟩) := by
  have hasked : (before.foldl Talk.after t).asked? = some q := hw
  obtain ⟨result, unread, later, hrun⟩ := run_of_asked hasked after
  obtain ⟨hafter, hsaid⟩ := after_of_reply hasked hr
  have hsome : (t.waiting before).isSome := by rw [hw]; rfl
  refine ⟨result, unread, events ++ t.saidFor before, later, ?_, ?_⟩
  · rw [run_append _ _ hsome, hrun]
  · rw [run_append _ _ hsome, run_step (by rw [hasked]; rfl), hafter, hsaid, hrun]
    simp only [List.append_assoc, List.cons_append, List.nil_append]

end Talk

end Dialog

end RecordForge
