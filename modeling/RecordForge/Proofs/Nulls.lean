import RecordForge.Proofs.Conformity
import RecordForge.Proofs.Recordings

/-!
# Nulls in between

A generator may stand under several nulls. A call of it draws one fraction for each of them, the outermost
first, up to one that is a null; only if there is none does the call come to the generator itself. So its calls
are those of the generator, with nulls in between, and if the fractions are taken out of the draws, what is left
is what the generator draws when it is called by itself.

* `Generator.nest`, `Layers`: a generator under nulls, and the fractions that a call draws for them.
* `Turn`, `coreCalls`: a call, and the calls among some that come to the generator itself.
* `Replays`: calls of a generator by itself that use up written draws.
* `TakesTurn`, `exists_turn`: what one call does. `TakesTurns`, `exists_turns`: what any number of calls do.
* **`nulls_between`**: the calls of a generator under nulls are its own, with nulls in between.
-/

namespace RecordForge

open Drawing

/-- A generator under nulls with some probabilities, the outermost first. -/
def Generator.nest (odds : List Float) (g : Generator) : Generator := odds.foldr .nullable g

/-- The fractions that a call draws for nulls with some probabilities: one for each, up to the first one that
is at most its probability. Whether there is such a one is said last. -/
inductive Layers : List Float → List Float → Bool → Prop where
  | through : Layers [] [] false
  | null {p x : Float} {odds : List Float} : x ≤ p → Layers (p :: odds) [x] true
  | past {p x : Float} {odds xs : List Float} {hit : Bool} : ¬x ≤ p → Layers odds xs hit →
    Layers (p :: odds) (x :: xs) hit

/-! ## Calls -/

/-- A call of a generator under nulls. -/
structure Turn where
  /-- The fractions that are drawn for the nulls. -/
  fractions : List Float
  /-- What the generator itself draws and gives, if the call comes to it. -/
  core : Option (List Drawn × Except Failure Value)

namespace Turn

/-- The draws of a call. -/
def drawn (t : Turn) : List Drawn := t.fractions.map .fraction ++ t.core.elim [] Prod.fst

/-- What a call gives. -/
def outcome (t : Turn) : Except Failure Value := t.core.elim (.ok .null) Prod.snd

end Turn

/-- The calls among some that come to the generator itself: what it draws and gives. -/
def coreCalls (turns : List Turn) : List (List Drawn × Except Failure Value) := turns.filterMap Turn.core

/-- The draws that are left of some calls without the fractions for the nulls. -/
def leftover (turns : List Turn) : List Drawn := (coreCalls turns).flatMap Prod.fst

/-- Calls of a generator by itself lead to another one, and use up some written draws. -/
inductive Replays (reach : Option Nat) :
    Generator → List (List Drawn × Except Failure Value) → Generator → Prop where
  | nil (g : Generator) : Replays reach g [] g
  | cons {g g' g'' : Generator} {ds : List Drawn} {outcome : Except Failure Value}
    {calls : List (List Drawn × Except Failure Value)} :
    (∀ rest, g.next (Replay.mk (ds ++ rest) reach) = (outcome, g', ⟨rest, reach⟩)) →
      Replays reach g' calls g'' → Replays reach g ((ds, outcome) :: calls) g''

/-- What some calls give is what the first one gives, and what the others give. -/
theorem Generator.map_nth_succ {σ : Type} [Source σ] (g : Generator) (s : σ) (n : Nat) :
    (List.range (n + 1)).map (fun k => g.nth k s) =
      (g.next s).1 :: (List.range n).map fun k => (g.next s).2.1.nth k (g.next s).2.2 := by
  rw [List.range_succ_eq_map, List.map_cons, List.map_map]
  rfl

namespace Replays

variable {reach : Option Nat} {g g' g'' : Generator} {calls calls' : List (List Drawn × Except Failure Value)}

theorem append (h : Replays reach g calls g') (h' : Replays reach g' calls' g'') :
    Replays reach g (calls ++ calls') g'' := by
  induction h with
  | nil => exact h'
  | cons hcall _ ih => exact .cons hcall (ih h')

/-- **Calls of a generator by itself follow the written draws**, and leave those after them. -/
theorem after_eq (h : Replays reach g calls g') (rest : List Drawn) :
    g.after calls.length (Replay.mk (calls.flatMap Prod.fst ++ rest) reach) = (g', ⟨rest, reach⟩) := by
  induction h with
  | nil g => rfl
  | cons hcall _ ih =>
    rw [List.flatMap_cons, List.append_assoc, List.length_cons, Generator.after, hcall]
    exact ih

theorem outcomes (h : Replays reach g calls g') (rest : List Drawn) :
    (List.range calls.length).map (fun k => g.nth k (Replay.mk (calls.flatMap Prod.fst ++ rest) reach)) =
      calls.map Prod.snd := by
  induction h with
  | nil g => rfl
  | cons hcall _ ih =>
    rw [List.flatMap_cons, List.append_assoc, List.length_cons, Generator.map_nth_succ, hcall, List.map_cons, ← ih]

end Replays

/-! ## One call -/

section Calls

variable {σ : Type} [Source σ] {odds : List Float} {g g' g'' : Generator} {s : σ} {t : Turn} {turns : List Turn}

theorem next_nullable_of_le {p : Float} (h : (Source.fraction s).1 ≤ p) (inner : Generator) :
    (Generator.nullable p inner).next s = (.ok .null, .nullable p inner, (Source.fraction s).2) := by
  simp only [Generator.next, if_pos h]

theorem next_nullable_of_not_le {p : Float} (h : ¬(Source.fraction s).1 ≤ p) (inner : Generator) :
    (Generator.nullable p inner).next s = ((inner.next (Source.fraction s).2).1,
      .nullable p (inner.next (Source.fraction s).2).2.1, (inner.next (Source.fraction s).2).2.2) := by
  simp only [Generator.next, if_neg h]

/-- What a call of a generator under nulls does with a source. -/
structure TakesTurn (odds : List Float) (g : Generator) (s : σ) (t : Turn) (g' : Generator) : Prop where
  /-- It draws for the nulls up to the first one, and comes to the generator if there is none. -/
  layers : Layers odds t.fractions t.core.isNone
  /-- Nothing else is drawn than what it draws for the nulls and the generator itself draws. -/
  leaves : (g.nest odds).call.Leaves s t.drawn
  /-- It gives null, or what the generator gives, and only the generator itself can have moved. -/
  gives : (g.nest odds).next s = (t.outcome, g'.nest odds, ((g.nest odds).next s).2.2)
  /-- The generator by itself does the same with its own draws. -/
  core : Replays (Source.reach s) g t.core.toList g'

/-- **Every call of a generator under nulls does this.** -/
theorem exists_turn [FixedReach σ] (odds : List Float) (g : Generator) (s : σ) :
    ∃ t g', TakesTurn odds g s t g' := by
  induction odds generalizing s with
  | nil =>
    obtain ⟨ds, hds⟩ := g.recordable_call σ s
    refine ⟨⟨[], some (ds, (g.next s).1)⟩, (g.next s).2.1, .through, hds, rfl, .cons ?_ (.nil _)⟩
    intro rest
    exact Generator.next_of_call (hds.replayed rest)
  | cons p odds ih =>
    have hnest : g.nest (p :: odds) = .nullable p (g.nest odds) := rfl
    have hfraction := leaves_fraction s
    by_cases hnull : (Source.fraction s).1 ≤ p
    · refine ⟨⟨[(Source.fraction s).1], none⟩, g, .null hnull, ?_, ?_, .nil g⟩
      · rw [hnest, Generator.call_nullable]
        refine hfraction.bind ?_
        rw [if_pos hnull]
        exact .pure _ _
      · rw [hnest, next_nullable_of_le hnull]
        rfl
    · obtain ⟨t, g', ht⟩ := ih (Source.fraction s).2
      refine ⟨⟨(Source.fraction s).1 :: t.fractions, t.core⟩, g', .past hnull ht.layers, ?_, ?_, ?_⟩
      · rw [hnest, Generator.call_nullable]
        refine hfraction.bind ?_
        rw [if_neg hnull]
        have hpast : Leaves (Drawing.bind (g.nest odds).call fun r => Drawing.pure (r.1, Generator.nullable p r.2))
            (Source.fraction s).2 (t.drawn ++ []) := ht.leaves.bind (.pure _ _)
        rw [List.append_nil] at hpast
        exact hpast
      · rw [hnest, next_nullable_of_not_le hnull, ht.gives]
        rfl
      · rw [← FixedReach.fraction s]
        exact ht.core

/-! ## Any number of calls -/

/-- What calls of a generator under nulls do, one after the other. -/
inductive TakesTurns (odds : List Float) : Generator → σ → List Turn → Generator → Prop where
  | nil (g : Generator) (s : σ) : TakesTurns odds g s [] g
  | cons {g g' g'' : Generator} {s : σ} {t : Turn} {turns : List Turn} : TakesTurn odds g s t g' →
    TakesTurns odds g' ((g.nest odds).next s).2.2 turns g'' → TakesTurns odds g s (t :: turns) g''

/-- **Any number of calls of a generator under nulls do this.** -/
theorem exists_turns [FixedReach σ] (odds : List Float) : ∀ (n : Nat) (g : Generator) (s : σ),
    ∃ turns g', turns.length = n ∧ TakesTurns odds g s turns g'
  | 0, g, s => ⟨[], g, rfl, .nil g s⟩
  | n + 1, g, s => by
    obtain ⟨t, g', ht⟩ := exists_turn odds g s
    obtain ⟨turns, g'', hlength, hturns⟩ := exists_turns odds n g' ((g.nest odds).next s).2.2
    exact ⟨t :: turns, g'', congrArg (· + 1) hlength, .cons ht hturns⟩

namespace TakesTurns

/-- The first of some calls do the same without the others. -/
theorem take (h : TakesTurns odds g s turns g') (k : Nat) : ∃ g'', TakesTurns odds g s (turns.take k) g'' := by
  induction h generalizing k with
  | nil g s => exact ⟨g, by rw [List.take_nil]; exact .nil g s⟩
  | @cons g g₁ g₂ s t turns ht _ ih =>
    cases k with
    | zero => exact ⟨g, .nil g s⟩
    | succ k =>
      obtain ⟨g'', hg''⟩ := ih k
      exact ⟨g'', .cons ht hg''⟩

theorem layers (h : TakesTurns odds g s turns g') :
    ∀ t ∈ turns, Layers odds t.fractions t.core.isNone := by
  induction h with
  | nil => exact fun _ ht => absurd ht List.not_mem_nil
  | cons ht _ ih => exact List.forall_mem_cons.mpr ⟨ht.layers, ih⟩

/-- A recorder writes down the draws of the calls. -/
theorem recorded (h : TakesTurns odds g s turns g') (before : List Drawn) :
    ((g.nest odds).after turns.length (Recorder.mk s before)).2.drawn = before ++ turns.flatMap Turn.drawn := by
  induction h generalizing before with
  | nil => exact (List.append_nil before).symm
  | @cons g g₁ g₂ s t turns ht _ ih =>
    have hgives : ((g.nest odds).call σ s).1 = (t.outcome, g₁.nest odds) :=
      congrArg (fun x => (x.1, x.2.1)) ht.gives
    have hcall := ht.leaves.recorded before
    rw [hgives] at hcall
    rw [List.length_cons, Generator.after, Generator.next_of_call hcall, List.flatMap_cons,
      ← List.append_assoc, ← ih]
    rfl

/-- Only the generator itself moves. -/
theorem after_eq (h : TakesTurns odds g s turns g') :
    ((g.nest odds).after turns.length s).1 = g'.nest odds := by
  induction h with
  | nil => rfl
  | @cons g g₁ g₂ s t turns ht _ ih =>
    rw [List.length_cons, Generator.after, ht.gives]
    exact ih

/-- The calls give nulls, and what the generator itself gives. -/
theorem outcomes (h : TakesTurns odds g s turns g') :
    (List.range turns.length).map (fun k => (g.nest odds).nth k s) = turns.map Turn.outcome := by
  induction h with
  | nil => rfl
  | cons ht _ ih => rw [List.length_cons, Generator.map_nth_succ, ht.gives, List.map_cons, ← ih]

/-- The generator by itself does the same with its own draws. -/
theorem replays (h : TakesTurns odds g s turns g') : Replays (Source.reach s) g (coreCalls turns) g' := by
  induction h with
  | nil g s => exact .nil g
  | @cons g g₁ g₂ s t turns ht _ ih =>
    have hcalls : coreCalls (t :: turns) = t.core.toList ++ coreCalls turns := by
      rw [coreCalls, List.filterMap_cons]
      cases t.core <;> rfl
    have hreach : Source.reach ((g.nest odds).next s).2.2 = Source.reach s := ht.leaves.reach
    rw [hreach] at ih
    rw [hcalls]
    exact ht.core.append ih

end TakesTurns

/-! ## Nulls in between -/

/-- Whether a call gives anything but null. -/
def isPresent : Except Failure Value → Bool
  | .ok v => v ≠ .null
  | .error _ => true

theorem isPresent_of_ne {outcome : Except Failure Value} (h : outcome ≠ .ok .null) : isPresent outcome = true := by
  cases outcome with
  | error e => rfl
  | ok v =>
    have hv : v ≠ .null := fun hnull => h (congrArg Except.ok hnull)
    exact decide_eq_true hv

/-- What is no null is what the generator itself gives, if it never gives null. -/
theorem filter_outcomes (h : ∀ c ∈ coreCalls turns, c.2 ≠ .ok .null) :
    (turns.map Turn.outcome).filter isPresent = (coreCalls turns).map Prod.snd := by
  induction turns with
  | nil => rfl
  | cons t turns ih =>
    obtain ⟨xs, _ | c⟩ := t
    · exact ih h
    · obtain ⟨hc, hcalls⟩ := List.forall_mem_cons.mp h
      have hkept : isPresent (Turn.outcome ⟨xs, some c⟩) = true := isPresent_of_ne hc
      rw [List.map_cons, List.filter_cons_of_pos hkept, ih hcalls]
      rfl

/-- The draws that are left are those of the first calls and those of the others. -/
theorem leftover_take (turns : List Turn) (k : Nat) :
    leftover turns = leftover (turns.take k) ++ leftover (turns.drop k) := by
  rw [leftover, leftover, leftover, coreCalls, coreCalls, coreCalls, ← List.flatMap_append,
    ← List.filterMap_append, List.take_append_drop]

/-- Some calls of a generator under nulls are calls of the generator with nulls in between. -/
structure NullsBetween (odds : List Float) (g : Generator) (s : σ) (turns : List Turn) : Prop where
  /-- This is what they give. -/
  outcomes : (List.range turns.length).map (fun k => (g.nest odds).nth k s) = turns.map Turn.outcome
  /-- Each draws a fraction for each null up to the first one that is at most its probability. -/
  layers : ∀ t ∈ turns, Layers odds t.fractions t.core.isNone
  /-- It gives null exactly if there is such a one. -/
  nulls : ∀ t ∈ turns, t.outcome = .ok .null ↔ t.core = none
  /-- Nothing is drawn but these fractions, and what the generator itself draws where the call comes to it. -/
  drawn : ∀ k ≤ turns.length,
    ((g.nest odds).after k (Recorder.mk s [])).2.drawn = (turns.take k).flatMap Turn.drawn
  /-- Only these calls move the generator, and they move it as if there were no others. -/
  moved : ∀ k ≤ turns.length, ((g.nest odds).after k s).1 =
    (g.after (coreCalls (turns.take k)).length (Replay.mk (leftover turns) (Source.reach s))).1.nest odds
  /-- What is given besides nulls is what the generator by itself gives, handed the draws that are left
  without the fractions. -/
  values : (turns.map Turn.outcome).filter isPresent =
    (List.range (coreCalls turns).length).map fun k =>
      g.nth k (Replay.mk (leftover turns) (Source.reach s))
  /-- And it uses all of them up. -/
  used : (g.after (coreCalls turns).length (Replay.mk (leftover turns) (Source.reach s))).2.left = []

/-- **The calls of a generator under nulls are its own, with nulls in between.** Let its own calls never give
null. Then any number of calls of it under nulls, with any source, draw a fraction for each null up to the
first one that is at most its probability, and give null exactly if there is one; in that case nothing else is
drawn and nothing moves. What they give besides nulls is what the generator gives by itself when it is handed
the draws that are left without these fractions. A generator that draws nothing gives the first terms of its
own sequence, and none is missing. -/
theorem nulls_between [FixedReach σ] (odds : List Float) {g : Generator}
    (hvalues : ∀ (τ : Type) [Source τ] (k : Nat) (u : τ), g.nth k u ≠ .ok .null) (s : σ) (n : Nat) :
    ∃ turns : List Turn, turns.length = n ∧ NullsBetween odds g s turns ∧
      (g.Sequential → ∀ (τ : Type) [Source τ] (u : τ),
        (turns.map Turn.outcome).filter isPresent =
          (List.range (coreCalls turns).length).map fun k => g.nth k u) := by
  obtain ⟨turns, g', hlength, hturns⟩ := exists_turns odds n g s
  have hcore := hturns.replays.outcomes []
  rw [List.append_nil] at hcore
  have hnever : ∀ c ∈ coreCalls turns, c.2 ≠ .ok .null := by
    intro c hc
    have hmem : c.2 ∈ (coreCalls turns).map Prod.snd := List.mem_map.mpr ⟨c, hc, rfl⟩
    rw [← hcore] at hmem
    obtain ⟨k, -, hk⟩ := List.mem_map.mp hmem
    rw [← hk]
    exact hvalues Replay k _
  refine ⟨turns, hlength, ?_, fun hsequential τ _ u => ?_⟩
  · constructor
    · exact hturns.outcomes
    · exact hturns.layers
    · intro t ht
      cases hcalled : t.core with
      | none => simp [Turn.outcome, hcalled]
      | some c =>
        have hc := hnever c (List.mem_filterMap.mpr ⟨t, ht, hcalled⟩)
        simp [Turn.outcome, hcalled, hc]
    · intro k hk
      obtain ⟨g'', hfirst⟩ := hturns.take k
      have hdrawn := hfirst.recorded []
      rwa [List.length_take_of_le hk] at hdrawn
    · intro k hk
      obtain ⟨g'', hfirst⟩ := hturns.take k
      have hmoved := hfirst.after_eq
      rw [List.length_take_of_le hk] at hmoved
      have hself := hfirst.replays.after_eq (leftover (turns.drop k))
      rw [hmoved, leftover_take turns k, leftover, hself]
    · rw [filter_outcomes hnever, ← hcore]
      rfl
    · have hused := hturns.replays.after_eq []
      rw [List.append_nil] at hused
      rw [leftover, hused]
  · rw [filter_outcomes hnever, ← hcore]
    apply List.map_congr_left
    intro k _
    rw [hsequential.nth_eq, hsequential.nth_eq]

end Calls

theorem not_holds_null (d : Descriptor) : ¬d.Holds .null := by
  unfold Descriptor.Holds
  cases d.kind <;> exact id

/-- A generator of values of a field that are no nulls never gives null. -/
theorem nth_ne_null {d : Descriptor} {g : Generator} (h : g.Suits d []) (τ : Type) [Source τ] (k : Nat) (u : τ) :
    g.nth k u ≠ .ok .null := by
  intro hnull
  have hkept : (g.after k u).1.Suits d [] :=
    Generator.after_keeps (P := Generator.Suits d []) (fun _ _ hmoves => hmoves.suits) k u h
  rcases next_conforms hkept hnull with hholds | ⟨-, p, hp, -⟩
  · exact not_holds_null d hholds
  · cases hp

/-- Fractions for four calls under two nulls. -/
def gapScript : Script := { fractions := ⟨#[0.125, 0.75, 0.5, 0.75, 0.875, 0.5, 0.625], 0⟩ }

/-- A counter under two nulls: the outer one comes first, then the inner one, and then the counter goes on. -/
theorem nulls_between_counter : ∃ turns : List Turn,
    NullsBetween [0.25, 0.5] (.counter 7 1 .long) gapScript turns ∧
    turns.map Turn.outcome = [.ok .null, .ok .null, .ok (.int 7), .ok (.int 8)] ∧
    (turns.map Turn.outcome).filter isPresent =
      (List.range (coreCalls turns).length).map fun k => (Generator.counter 7 1 .long).nth k ({} : Script) := by
  have hsuits : (Generator.counter 7 1 .long).Suits (.plain "n" .long) [] := ⟨rfl, rfl⟩
  have hsequential : (Generator.counter 7 1 .long).Sequential := trivial
  obtain ⟨turns, hlength, hbetween, hterms⟩ := nulls_between [0.25, 0.5] (nth_ne_null hsuits) gapScript 4
  refine ⟨turns, hbetween, ?_, hterms hsequential Script {}⟩
  rw [← hbetween.outcomes, hlength]
  rfl

end RecordForge
