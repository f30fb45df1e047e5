import RecordForge.Draw.Script
import RecordForge.Proofs.Moves
import RecordForge.Recipe.Bench

/-!
# Generators that are shared

On a bench one generator may fill several fields of several recipes, and be called by itself in between; a
call that fails ends the filling of a record, but not the program. A counter or a rotation draws nothing, so
what a call of it gives depends only on how many calls there have been.

* `Generator.core`, `Generator.reached`: what stands under the nulls of a generator, and what a call gives
  there.
* `Generator.Sequential`: a generator draws nothing. `Generator.term`, `Generator.onward` are what it gives and
  what becomes of it by itself.
* `Call`, `fillCalls`, `Bench.calls`, `Bench.history`: the calls of a program in the order in which they happen.
* `fill_eq_written`, `answer_fill`, `answer_next`: records and answers hold what these calls gave.
* `Continues`: what some calls leave of a sequence; `continues_next`, `continues_step`: what one call and one
  step keep up.
* **`shared_calls_in_sequence`**: the calls of a shared generator give the terms of its own sequence.
-/

namespace RecordForge

variable {σ : Type} [Source σ]

/-! ## Sequences -/

namespace Generator

/-- A generator draws nothing: its values follow one another. -/
def Sequential : Generator → Prop
  | counter .. => True
  | rotate .. => True
  | days _ _ _ buckets _ _ => buckets = 0
  | _ => False

/-- A call of a generator that draws nothing does not depend on the source, and leaves it as it is. -/
theorem exists_next {g : Generator} (h : g.Sequential) : ∃ outcome g', g'.Sequential ∧
    ∀ (τ : Type) [Source τ] (s : τ), g.next s = (outcome, g', s) := by
  cases g with
  | counter count scale kind => exact ⟨_, counter (Word.wrap (count + 1)) scale kind, trivial, fun _ _ _ => rfl⟩
  | rotate items index =>
    cases hitem : itemAt? items index with
    | some v =>
      refine ⟨.ok v, rotate items ((index + 1) % items.length), trivial, fun _ _ _ => ?_⟩
      simp only [next, hitem]
    | none =>
      refine ⟨.error (.defect .noSuchItem), rotate items index, trivial, fun _ _ _ => ?_⟩
      simp only [next, hitem]
  | days lower width scale buckets fallback kind =>
    exact ⟨.ok (.int fallback), days lower width scale buckets fallback kind, h, fun _ _ _ => if_pos h⟩
  | _ => exact h.elim

/-- A term of the sequence of a generator that draws nothing: what its call after some others gives, when
nobody else calls it. -/
def term (g : Generator) (n : Nat) : Except Failure Value := g.nth n ({} : Script)

/-- A generator that draws nothing after a number of calls. -/
def onward (g : Generator) (n : Nat) : Generator := (g.after n ({} : Script)).1

/-- **A call of a generator that draws nothing** gives the first term of its sequence and leaves the rest. -/
theorem next_eq {g : Generator} (h : g.Sequential) (s : σ) : g.next s = (g.term 0, g.onward 1, s) := by
  obtain ⟨outcome, g', -, hnext⟩ := exists_next h
  have hterm : g.term 0 = outcome := congrArg Prod.fst (hnext Script {})
  have honward : g.onward 1 = g' := congrArg (fun x => x.2.1) (hnext Script {})
  rw [hnext σ s, hterm, honward]

theorem Sequential.onward_one {g : Generator} (h : g.Sequential) : (g.onward 1).Sequential := by
  obtain ⟨outcome, g', hg', hnext⟩ := exists_next h
  have honward : g.onward 1 = g' := congrArg (fun x => x.2.1) (hnext Script {})
  rwa [honward]

/-- Calls one after the other: the first ones, and then the rest of them. -/
theorem after_add : ∀ (m n : Nat) (g : Generator) (s : σ),
    g.after (m + n) s = (g.after m s).1.after n (g.after m s).2
  | 0, n, g, s => by rw [Nat.zero_add, after]
  | m + 1, n, g, s => by
    rw [Nat.succ_add, after, after]
    exact after_add m n _ _

/-- **Any number of calls of a generator that draws nothing** leaves it where its sequence has come to, and
the source as it is. -/
theorem Sequential.after_eq : ∀ (n : Nat) {g : Generator} (_ : g.Sequential) (s : σ),
    g.after n s = (g.onward n, s) ∧ (g.onward n).Sequential
  | 0, _, h, _ => ⟨rfl, h⟩
  | n + 1, g, h, s => by
    have honward : g.onward (n + 1) = (g.onward 1).onward n := by
      rw [onward, after, next_eq h]
      rfl
    rw [after, next_eq h, honward]
    exact after_eq n h.onward_one s

theorem Sequential.onward_add {g : Generator} (h : g.Sequential) (m n : Nat) :
    g.onward (m + n) = (g.onward m).onward n := by
  rw [onward, after_add, (h.after_eq m _).1]
  rfl

theorem Sequential.term_add {g : Generator} (h : g.Sequential) (m n : Nat) :
    g.term (m + n) = (g.onward m).term n := by
  rw [term, nth, after_add, (h.after_eq m _).1]
  rfl

/-- The sequence of a generator that draws nothing is the same for every source. -/
theorem Sequential.nth_eq {g : Generator} (h : g.Sequential) (n : Nat) (s : σ) : g.nth n s = g.term n := by
  obtain ⟨hafter, hsequential⟩ := h.after_eq n s
  rw [nth, hafter, next_eq hsequential]
  exact (h.term_add n 0).symm

/-! ## Below nulls -/

/-- What stands under the nulls of a generator. -/
def core : Generator → Generator
  | nullable _ inner => inner.core
  | g => g

theorem Sequential.core_eq {g : Generator} (h : g.Sequential) : g.core = g := by
  cases g with
  | nullable => exact h.elim
  | _ => rfl

/-- What a call gives under the nulls of a generator, unless one of these is drawn. -/
def reached : Generator → σ → Option (Except Failure Value)
  | nullable p inner, s =>
    let (x, s) := Source.fraction s
    if x ≤ p then none else reached inner s
  | g, s => some (g.next s).1

/-- A call gives null where it does not come to what stands under the nulls. -/
theorem next_eq_reached (g : Generator) (s : σ) : (g.next s).1 = (g.reached s).getD (.ok .null) := by
  induction g generalizing s with
  | nullable p inner ih =>
    simp only [next, reached]
    split
    · rfl
    · exact ih _
  | _ => rfl

/-- A call of a generator that draws nothing has no null to draw. -/
theorem Sequential.reached_eq {g : Generator} (h : g.Sequential) (s : σ) : g.reached s = some (g.term 0) := by
  have hterm : (g.next s).1 = g.term 0 := congrArg Prod.fst (next_eq h s)
  rw [← hterm]
  cases g with
  | nullable => exact h.elim
  | _ => rfl

/-- A call that draws a null leaves what stands under it; any other call is a call of that. -/
theorem reached_core {g : Generator} (h : g.core.Sequential) (s : σ) :
    g.reached s = none ∧ (g.next s).2.1.core = g.core ∨
      g.reached s = some (g.core.term 0) ∧ (g.next s).2.1.core = g.core.onward 1 := by
  induction g generalizing s with
  | nullable p inner ih =>
    simp only [next, reached]
    split
    · exact .inl ⟨rfl, rfl⟩
    · exact ih h _
  | _ =>
    have hnext := next_eq h s
    refine .inr ⟨Sequential.reached_eq h s, ?_⟩
    exact (congrArg (fun x => x.2.1.core) hnext).trans (Sequential.onward_one h).core_eq

end Generator

/-! ## The calls of a program -/

/-- A call of a generator by its name, with what it gave under the nulls, unless one of these was drawn. -/
structure Call where
  generator : String
  core : Option (Except Failure Value)

namespace Call

/-- What a call gave. -/
def outcome (c : Call) : Except Failure Value := c.core.getD (.ok .null)

/-- What a call gave under the nulls of one generator. -/
def under (name : String) (c : Call) : Option (Except Failure Value) :=
  if c.generator = name then c.core else none

end Call

/-- The call of a generator of a pool. -/
def Pool.call (p : Pool) (name : String) (s : σ) : Call :=
  ⟨name, match Ledger.get? p name with
    | none => some (.error (.defect .noSuchItem))
    | some g => g.reached s⟩

/-- The calls that fill a record: up to the first one that fails. -/
def fillCalls : Recipe → Pool → σ → List Call
  | [], _, _ => []
  | (_, name) :: rest, p, s =>
    p.call name s :: match p.next name s with
      | (.ok _, p, s) => fillCalls rest p s
      | (.error _, _, _) => []

namespace Bench

/-- The calls of a step. -/
def calls (b : Bench σ) : Step → List Call
  | .fill recipe _ =>
    let r := (Ledger.get? b.recipes recipe).getD ⟨[], none, b.fresh⟩
    fillCalls r.recipe b.pool (b.sourceOf r)
  | .next generator source => [b.pool.call generator (b.source source)]
  | _ => []

/-- The bench after a program, and the answers to its steps. -/
def run (b : Bench σ) : List Step → Bench σ × List Answer
  | [] => (b, [])
  | x :: rest =>
    let (b, answer) := b.step x
    let (b, answers) := b.run rest
    (b, answer :: answers)

/-- The calls of a program in the order in which they happen. -/
def history (b : Bench σ) : List Step → List Call
  | [] => []
  | x :: rest => b.calls x ++ (b.step x).1.history rest

end Bench

theorem Bench.pool_putSourceOf {τ : Type} (b : Bench τ) (r : BoundRecipe) (s : τ) :
    (b.putSourceOf r s).pool = b.pool := by
  obtain ⟨sources, owned, h⟩ := b.exists_putSourceOf r s
  rw [h]

/-! ### What the calls gave -/

theorem outcome_call (p : Pool) (name : String) (s : σ) : (p.call name s).outcome = (p.next name s).1 := by
  unfold Pool.call Pool.next
  cases Ledger.get? p name with
  | none => rfl
  | some g => exact (g.next_eq_reached s).symm

/-- A record after values are written under some fields, up to the first failure. -/
def written : Record → List String → List (Except Failure Value) → Record × Option Failure
  | r, field :: fields, .ok v :: outcomes => written (Ledger.set r field v) fields outcomes
  | r, _ :: _, .error e :: _ => (r, some e)
  | r, _, _ => (r, none)

/-- **A record is filled with what the calls gave.** -/
theorem fill_eq_written : ∀ (recipe : Recipe) (r : Record) (p : Pool) (s : σ),
    ((fill recipe r p s).record, (fill recipe r p s).failure) =
      written r (recipe.map Prod.fst) ((fillCalls recipe p s).map Call.outcome)
  | [], r, p, s => rfl
  | (field, name) :: rest, r, p, s => by
    simp only [fill, fillCalls, List.map_cons, outcome_call]
    rcases p.next name s with ⟨e | v, p', s'⟩
    · rfl
    · exact fill_eq_written rest _ p' s'

theorem answer_fill (b : Bench σ) (recipe record : String) :
    (b.step (.fill recipe record)).2 =
      let fields := ((Ledger.get? b.recipes recipe).getD ⟨[], none, b.fresh⟩).recipe.map Prod.fst
      let r := written ((Ledger.get? b.records record).getD []) fields
        ((b.calls (.fill recipe record)).map Call.outcome)
      .record r.1 r.2 := by
  simp only [Bench.calls, ← fill_eq_written]
  rfl

theorem answer_next (b : Bench σ) (generator source : String) :
    (b.step (.next generator source)).2 =
      match (b.calls (.next generator source)).map Call.outcome with
      | [.ok v] => .value v
      | [.error e] => .failure e
      | _ => .done := by
  simp only [Bench.calls, List.map_cons, List.map_nil, outcome_call, Bench.step]
  rcases b.pool.next generator (b.source source) with ⟨e | v, p, s⟩ <;> rfl

/-! ## What calls leave of a sequence -/

/-- Some calls lead from one generator to another through the next terms of its sequence. -/
structure Continues (name : String) (calls : List Call) (g g' : Generator) : Prop where
  sequential : g'.core.Sequential
  terms : ∃ n, calls.filterMap (Call.under name) = (List.range n).map g.core.term ∧
    g'.core = g.core.onward n
  bare : g.Sequential → g'.Sequential ∧ ∀ c ∈ calls, c.generator = name → c.core = some c.outcome

/-- In a pool some calls go on with the sequence of a generator. -/
def Pool.Continues (name : String) (calls : List Call) (p p' : Pool) : Prop :=
  ∀ g, Ledger.get? p name = some g → g.core.Sequential →
    ∃ g', Ledger.get? p' name = some g' ∧ RecordForge.Continues name calls g g'

section Sequences

variable {name : String} {p p₁ p₂ : Pool} {calls calls' : List Call}

theorem Continues.refl (name : String) {g : Generator} (h : g.core.Sequential) :
    Continues name [] g g :=
  ⟨h, ⟨0, rfl, rfl⟩, fun hg => ⟨hg, fun _ hc => absurd hc List.not_mem_nil⟩⟩

/-- Calls after other calls go on where these have stopped. -/
theorem Continues.append {g g₁ g₂ : Generator} (h : g.core.Sequential) (h₁ : Continues name calls g g₁)
    (h₂ : Continues name calls' g₁ g₂) : Continues name (calls ++ calls') g g₂ := by
  obtain ⟨m, hterms, hcore⟩ := h₁.terms
  obtain ⟨n, hterms', hcore'⟩ := h₂.terms
  refine ⟨h₂.sequential, ⟨m + n, ?_, ?_⟩, fun hg => ?_⟩
  · rw [List.filterMap_append, hterms, hterms', hcore, List.range_add, List.map_append, List.map_map]
    congr 2
    funext k
    exact (h.term_add m k).symm
  · rw [hcore', hcore, h.onward_add]
  · obtain ⟨hg₁, hcalls⟩ := h₁.bare hg
    obtain ⟨hg₂, hcalls'⟩ := h₂.bare hg₁
    refine ⟨hg₂, fun c hc => ?_⟩
    rcases List.mem_append.mp hc with hc | hc
    · exact hcalls c hc
    · exact hcalls' c hc

/-- Where every call comes to the generator itself, this is what the calls gave. -/
theorem map_outcome_filter : ∀ {calls : List Call},
    (∀ c ∈ calls, c.generator = name → c.core = some c.outcome) →
      (calls.filter (·.generator = name)).map Call.outcome = calls.filterMap (Call.under name)
  | [], _ => rfl
  | c :: rest, h => by
    obtain ⟨hc, hrest⟩ := List.forall_mem_cons.mp h
    have ih := map_outcome_filter hrest
    by_cases hname : c.generator = name
    · have hunder : Call.under name c = some c.outcome := (if_pos hname).trans (hc hname)
      rw [List.filter_cons_of_pos (by simpa using hname), List.map_cons, List.filterMap_cons, hunder, ih]
    · have hunder : Call.under name c = none := if_neg hname
      rw [List.filter_cons_of_neg (by simpa using hname), List.filterMap_cons, hunder, ih]

theorem Pool.Continues.refl (name : String) (p : Pool) : p.Continues name [] p :=
  fun g hg h => ⟨g, hg, .refl name h⟩

theorem Pool.Continues.append (h₁ : Pool.Continues name calls p p₁)
    (h₂ : Pool.Continues name calls' p₁ p₂) : Pool.Continues name (calls ++ calls') p p₂ := by
  intro g hg h
  obtain ⟨g₁, hg₁, hcalls⟩ := h₁ g hg h
  obtain ⟨g₂, hg₂, hcalls'⟩ := h₂ g₁ hg₁ hcalls.sequential
  exact ⟨g₂, hg₂, hcalls.append h hcalls'⟩

/-- A call goes on with the sequence of its generator. -/
theorem continues_reached (name : String) {g : Generator} (h : g.core.Sequential) (s : σ) :
    Continues name [⟨name, g.reached s⟩] g (g.next s).2.1 := by
  have hunder : Call.under name ⟨name, g.reached s⟩ = g.reached s := if_pos rfl
  have hbare (hg : g.Sequential) : (g.next s).2.1.Sequential ∧
      ∀ c ∈ [Call.mk name (g.reached s)], c.generator = name → c.core = some c.outcome := by
    refine ⟨by rw [Generator.next_eq hg s]; exact hg.onward_one, fun c hc _ => ?_⟩
    rw [List.mem_singleton.mp hc, Call.outcome, hg.reached_eq s]
    rfl
  rcases Generator.reached_core h s with ⟨hreached, hcore⟩ | ⟨hreached, hcore⟩
  · refine ⟨hcore ▸ h, ⟨0, ?_, hcore⟩, hbare⟩
    rw [List.filterMap_cons, hunder, hreached]
    rfl
  · refine ⟨hcore ▸ h.onward_one, ⟨1, ?_, hcore⟩, hbare⟩
    rw [List.filterMap_cons, hunder, hreached]
    rfl

/-- A call of one generator leaves every other one. -/
theorem get?_next {other : String} (h : other ≠ name) (p : Pool) (s : σ) :
    Ledger.get? (p.next other s).2.1 name = Ledger.get? p name := by
  unfold Pool.next
  split
  · rfl
  · exact (Ledger.get?_set p other name _).trans (if_neg h)

/-- **A call in a pool goes on with the sequence of one generator**, and leaves every other one. -/
theorem continues_next (name other : String) (p : Pool) (s : σ) :
    Pool.Continues name [p.call other s] p (p.next other s).2.1 := by
  intro g hg h
  by_cases hother : other = name
  · subst hother
    have hcall : p.call other s = ⟨other, g.reached s⟩ := by rw [Pool.call, hg]
    have hpool : (p.next other s).2.1 = Ledger.set p other (g.next s).2.1 := by rw [Pool.next, hg]
    refine ⟨(g.next s).2.1, by rw [hpool, Ledger.get?_set, if_pos rfl], ?_⟩
    rw [hcall]
    exact continues_reached other h s
  · have hpool : Ledger.get? (p.next other s).2.1 name = some g := (get?_next hother p s).trans hg
    have hunder : Call.under name (p.call other s) = none := if_neg hother
    refine ⟨g, hpool, h, ⟨0, by rw [List.filterMap_cons, hunder]; rfl, rfl⟩,
      fun hg => ⟨hg, fun c hc hname => ?_⟩⟩
    rw [List.mem_singleton.mp hc] at hname
    exact absurd hname hother

/-- So does the filling of a record, whether it ends or fails. -/
theorem continues_fill (name : String) : ∀ (recipe : Recipe) (r : Record) (p : Pool) (s : σ),
    Pool.Continues name (fillCalls recipe p s) p (fill recipe r p s).pool
  | [], r, p, s => .refl name p
  | (field, other) :: rest, r, p, s => by
    have hnext := continues_next name other p s
    simp only [fill, fillCalls]
    rcases hx : p.next other s with ⟨e | v, p', s'⟩ <;> rw [hx] at hnext
    · exact hnext
    · exact hnext.append (continues_fill name rest _ p' s')

/-- **A step goes on with the sequence of every generator.** -/
theorem continues_step (name : String) (b : Bench σ) (x : Step) :
    Pool.Continues name (b.calls x) b.pool (b.step x).1.pool := by
  cases x with
  | fill recipe record =>
    simp only [Bench.step, Bench.fillRecord, Bench.pool_putSourceOf]
    exact continues_fill name _ _ _ _
  | next generator source =>
    have hnext := continues_next name generator b.pool (b.source source)
    simp only [Bench.step, Bench.calls]
    rcases hx : b.pool.next generator (b.source source) with ⟨e | v, p', s'⟩ <;>
    · rw [hx] at hnext
      exact hnext
  | giveSource builder source =>
    simp only [Bench.step]
    split <;> exact .refl name b.pool
  | inspect generator =>
    simp only [Bench.step]
    split <;> exact .refl name b.pool
  | _ => exact .refl name b.pool

/-- So does every program. -/
theorem continues_run (name : String) : ∀ (program : List Step) (b : Bench σ),
    Pool.Continues name (b.history program) b.pool (b.run program).1.pool
  | [], b => .refl name b.pool
  | x :: rest, b => (continues_step name b x).append (continues_run name rest _)

end Sequences

/-- **The calls of a shared generator give the terms of its own sequence.** Take a counter or a rotation on a
bench, possibly under nulls, and any program. What the calls of it give, in the order in which they happen, are
the first terms of the sequence that it gives by itself, with any source; none is left out and none comes twice.
It is left where these terms end. Without nulls these are the outcomes of all calls by its name, whichever
recipes, fields and sources they belong to, and also if records in between could not be filled. -/
theorem shared_calls_in_sequence {b : Bench σ} {name : String} {g : Generator}
    (hg : Ledger.get? b.pool name = some g) (h : g.core.Sequential) (program : List Step)
    {τ : Type} [Source τ] (u : τ) :
    ∃ n, (b.history program).filterMap (Call.under name) = (List.range n).map (g.core.nth · u) ∧
      (∃ g', Ledger.get? (b.run program).1.pool name = some g' ∧ g'.core = (g.core.after n u).1) ∧
      (g.Sequential → ((b.history program).filter (·.generator = name)).map Call.outcome =
        (List.range n).map (g.nth · u)) := by
  obtain ⟨g', hg', hcalls⟩ := continues_run name program b g hg h
  obtain ⟨n, hterms, hcore⟩ := hcalls.terms
  have hnth : (g.core.nth · u) = g.core.term := funext fun k => h.nth_eq k u
  refine ⟨n, by rw [hnth, hterms], ⟨g', hg', ?_⟩, fun hsequential => ?_⟩
  · rw [hcore, (h.after_eq n u).1]
  · have hself : g.core = g := hsequential.core_eq
    rw [hself] at hterms hnth
    rw [map_outcome_filter (hcalls.bare hsequential).2, hterms, hnth]

/-- A bench with two recipes that share a rotation. In one of them a generator that fails comes between its
fields. -/
def turnBench : Bench Script where
  pool := [("turn", .rotate [.text "a", .text "b", .text "c"] 0), ("none", .pick [])]
  sources := [("s", {})]
  spare := {}
  recipes := [("row", ⟨[("x", "turn"), ("y", "none"), ("z", "turn")], none, 0⟩),
    ("pair", ⟨[("x", "turn"), ("y", "turn")], some "s", 1⟩)]

/-- A record that is not filled to the end has taken one item, and the next call takes the next one. -/
theorem shared_calls_in_sequence_turn :
    (turnBench.history [.fill "row" "r", .next "turn" "s", .fill "row" "r", .fill "pair" "q"]).map
        Call.outcome = [.ok (.text "a"), .error (.defect (.emptyDraw 0)), .ok (.text "b"),
          .ok (.text "c"), .error (.defect (.emptyDraw 0)), .ok (.text "a"), .ok (.text "b")] ∧
      [Value.text "a", .text "b", .text "c", .text "a", .text "b"].map Except.ok =
        (List.range 5).map ((Generator.rotate [.text "a", .text "b", .text "c"] 0).nth · ({} : Script)) := by
  have hturn : Ledger.get? turnBench.pool "turn" = some (.rotate [.text "a", .text "b", .text "c"] 0) := rfl
  obtain ⟨n, -, -, hcalls⟩ := shared_calls_in_sequence hturn trivial
    [.fill "row" "r", .next "turn" "s", .fill "row" "r", .fill "pair" "q"] ({} : Script)
  have hlength := congrArg List.length (hcalls trivial)
  rw [List.length_map, List.length_map, List.length_range] at hlength
  obtain rfl : 5 = n := hlength
  exact ⟨rfl, hcalls trivial⟩

end RecordForge
