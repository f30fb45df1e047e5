import RecordForge.Draw.Supply
import RecordForge.Proofs.Sharing

/-!
# Draws written down

What a generator makes of a source depends on the draws alone. They can be written down while they are made,
and a source that gives the same draws again has the generator do the same again, whatever comes after them.

* `Drawn`, `Recorder`, `Replay`: a draw, a source that writes its draws down, and one that gives written draws.
* `FixedReach`: how far a source reaches does not change with its draws.
* `Drawing`: a computation that can draw from any source.
* `Drawing.Leaves`: the draws that it makes from a source, and that decide what it does.
* `Recordable`: a computation makes such draws from every source; `Recordable.bind` puts two together.
* **`recordable_call`**: a call of a generator can be recorded.
-/

namespace RecordForge

/-- A draw of one of the four kinds. -/
inductive Drawn where
  | long (n : Int)
  | below (n : Nat)
  | fraction (x : Float)
  | normal (x : Float)
  deriving DecidableEq

/-! ## Recording and replaying -/

/-- A source that writes its draws down, the oldest first. -/
structure Recorder (σ : Type) where
  source : σ
  drawn : List Drawn

namespace Recorder

variable {σ : Type}

/-- Draw from the source and write the draw down. -/
def draw {α : Type} (note : α → Drawn) (f : σ → α × σ) (r : Recorder σ) : α × Recorder σ :=
  let (a, s) := f r.source
  (a, ⟨s, r.drawn ++ [note a]⟩)

instance [Source σ] : Source (Recorder σ) where
  long := draw .long Source.long
  below bound h := draw (fun n => .below n) (Source.below bound h)
  fraction := draw .fraction Source.fraction
  normal := draw .normal Source.normal
  reach r := Source.reach r.source

end Recorder

/-- A source that gives written draws. Where the next one is of another kind, or there is none, it gives
zero. -/
structure Replay where
  left : List Drawn
  reach : Option Nat

namespace Replay

def long : Replay → Int × Replay
  | ⟨.long n :: left, reach⟩ => (n, ⟨left, reach⟩)
  | r => (0, r)

def below (bound : Nat) (h : 0 < bound) : Replay → Fin bound × Replay
  | ⟨.below n :: left, reach⟩ => (⟨n % bound, Nat.mod_lt n h⟩, ⟨left, reach⟩)
  | r => (⟨0, h⟩, r)

def fraction : Replay → Float × Replay
  | ⟨.fraction x :: left, reach⟩ => (x, ⟨left, reach⟩)
  | r => (0.0, r)

def normal : Replay → Float × Replay
  | ⟨.normal x :: left, reach⟩ => (x, ⟨left, reach⟩)
  | r => (0.0, r)

instance : Source Replay := ⟨long, below, fraction, normal, Replay.reach⟩

/-- A written draw below a bound is given as it is. -/
theorem source_below {bound n : Nat} (hpos : 0 < bound) (hn : n < bound) (rest : List Drawn)
    (reach : Option Nat) :
    Source.below bound hpos (Replay.mk (.below n :: rest) reach) = (⟨n, hn⟩, Replay.mk rest reach) := by
  have hmod : (⟨n % bound, Nat.mod_lt n hpos⟩ : Fin bound) = ⟨n, hn⟩ := Fin.ext (Nat.mod_eq_of_lt hn)
  exact congrArg (·, Replay.mk rest reach) hmod

/-- Written draws reach as far as one likes. -/
theorem reaches (left : List Drawn) (bound : Int) : Source.Reaches (Replay.mk left none) bound := by
  intro r hr
  cases hr

end Replay

/-- How far a source reaches does not change with its draws. -/
class FixedReach (σ : Type) [Source σ] : Prop where
  long (s : σ) : Source.reach (Source.long s).2 = Source.reach s
  below (bound : Nat) (h : 0 < bound) (s : σ) : Source.reach (Source.below bound h s).2 = Source.reach s
  fraction (s : σ) : Source.reach (Source.fraction s).2 = Source.reach s
  normal (s : σ) : Source.reach (Source.normal s).2 = Source.reach s

instance : FixedReach Script := ⟨fun _ => rfl, fun _ _ _ => rfl, fun _ => rfl, fun _ => rfl⟩

instance : FixedReach Seeded := ⟨fun _ => rfl, fun _ _ _ => rfl, fun _ => rfl, fun _ => rfl⟩

instance : FixedReach Supply where
  long s := by cases s <;> rfl
  below bound h s := by cases s <;> rfl
  fraction s := by cases s <;> rfl
  normal s := by cases s <;> rfl

/-! ## Computations that draw -/

/-- A computation that can draw from any source. -/
def Drawing (α : Type) : Type 1 := (σ : Type) → [Source σ] → σ → α × σ

namespace Drawing

variable {α β : Type}

/-- No draw at all. -/
def pure (a : α) : Drawing α := fun _ _ s => (a, s)

/-- A computation, and another one that depends on its result. -/
def bind (f : Drawing α) (next : α → Drawing β) : Drawing β :=
  fun σ _ s => next (f σ s).1 σ (f σ s).2

/-- A draw below a bound. -/
def below (bound : Nat) (h : 0 < bound) : Drawing (Fin bound) := fun _ _ s => Source.below bound h s

/-- The second computation goes on from where the first one stops. -/
theorem bind_apply {σ : Type} [Source σ] {f : Drawing α} (next : α → Drawing β) {s u : σ} {a : α}
    (h : f σ s = (a, u)) : f.bind next σ s = next a σ u := by
  rw [Drawing.bind, h]

/-- The draws that a computation makes from a source are some draws, and these decide what it does. -/
structure Leaves {σ : Type} [Source σ] (f : Drawing α) (s : σ) (ds : List Drawn) : Prop where
  /-- They are what a recorder writes down. -/
  recorded : ∀ before, f (Recorder σ) ⟨s, before⟩ = ((f σ s).1, ⟨(f σ s).2, before ++ ds⟩)
  /-- A replay of them has the same result, and leaves what comes after them. -/
  replayed : ∀ rest, f Replay ⟨ds ++ rest, Source.reach s⟩ = ((f σ s).1, ⟨rest, Source.reach s⟩)
  /-- The source reaches as far as before. -/
  reach : Source.reach (f σ s).2 = Source.reach s

/-- From every source a computation makes draws that decide what it does. -/
def Recordable (f : Drawing α) : Prop :=
  ∀ (σ : Type) [Source σ] [FixedReach σ] (s : σ), ∃ ds, f.Leaves s ds

theorem Leaves.pure {σ : Type} [Source σ] (a : α) (s : σ) : (Drawing.pure a).Leaves s [] where
  recorded before := by
    rw [List.append_nil]
    rfl
  replayed _ := rfl
  reach := rfl

theorem Recordable.pure (a : α) : (Drawing.pure a).Recordable := fun _ _ _ s => ⟨[], Leaves.pure a s⟩

/-- The draws of two computations come one after the other. -/
theorem Leaves.bind {σ : Type} [Source σ] {f : Drawing α} {next : α → Drawing β} {s : σ} {ds es : List Drawn}
    (hf : f.Leaves s ds) (hnext : (next (f σ s).1).Leaves (f σ s).2 es) : (f.bind next).Leaves s (ds ++ es) where
  recorded before := by
    simp only [Drawing.bind, hf.recorded, hnext.recorded, List.append_assoc]
  replayed rest := by
    have hlater := hnext.replayed rest
    rw [hf.reach] at hlater
    simp only [Drawing.bind, List.append_assoc, hf.replayed, hlater]
  reach := hnext.reach.trans hf.reach

theorem Recordable.bind {f : Drawing α} {next : α → Drawing β} (hf : f.Recordable)
    (hnext : ∀ a, (next a).Recordable) : (f.bind next).Recordable := by
  intro σ hsource hfixed s
  obtain ⟨ds, hds⟩ := hf σ s
  obtain ⟨es, hes⟩ := hnext (f σ s).1 σ (f σ s).2
  exact ⟨ds ++ es, hds.bind hes⟩

/-- A computation leaves the draws of another one that does the same for every source of that reach. -/
theorem Leaves.congr {σ : Type} [Source σ] {f f' : Drawing α} {s : σ} {ds : List Drawn} (h : f.Leaves s ds)
    (heq : ∀ (τ : Type) [Source τ] (u : τ), Source.reach u = Source.reach s → f' τ u = f τ u) :
    f'.Leaves s ds where
  recorded before := by
    rw [heq σ s rfl, heq (Recorder σ) ⟨s, before⟩ rfl]
    exact h.recorded before
  replayed rest := by
    rw [heq σ s rfl, heq Replay ⟨ds ++ rest, Source.reach s⟩ rfl]
    exact h.replayed rest
  reach := by
    rw [heq σ s rfl]
    exact h.reach

/-! ### The four kinds of draws -/

theorem recordable_long : Recordable fun _ _ s => Source.long s := by
  intro σ hsource hfixed s
  exact ⟨[.long (Source.long s).1], fun _ => rfl, fun _ => rfl, FixedReach.long s⟩

/-- A draw below a bound leaves itself. -/
theorem leaves_below {σ : Type} [Source σ] [FixedReach σ] {bound : Nat} (h : 0 < bound) (s : σ) :
    (below bound h).Leaves s [.below (Source.below bound h s).1] :=
  ⟨fun _ => rfl, fun rest => Replay.source_below h (Fin.isLt _) rest (Source.reach s),
    FixedReach.below bound h s⟩

theorem recordable_below (bound : Nat) (h : 0 < bound) : (below bound h).Recordable := by
  intro σ hsource hfixed s
  exact ⟨_, leaves_below h s⟩

/-- A draw below a bound that is written down is given as it is. -/
theorem below_replay {bound : Nat} (h : 0 < bound) (i : Fin bound) (rest : List Drawn) (reach : Option Nat) :
    below bound h Replay ⟨.below i :: rest, reach⟩ = (i, ⟨rest, reach⟩) :=
  Replay.source_below h i.isLt rest reach

/-- A fraction leaves itself. -/
theorem leaves_fraction {σ : Type} [Source σ] [FixedReach σ] (s : σ) :
    Leaves (fun _ _ s => Source.fraction s) s [.fraction (Source.fraction s).1] :=
  ⟨fun _ => rfl, fun _ => rfl, FixedReach.fraction s⟩

theorem recordable_fraction : Recordable fun _ _ s => Source.fraction s := by
  intro σ hsource hfixed s
  exact ⟨_, leaves_fraction s⟩

theorem recordable_normal : Recordable fun _ _ s => Source.normal s := by
  intro σ hsource hfixed s
  exact ⟨[.normal (Source.normal s).1], fun _ => rfl, fun _ => rfl, FixedReach.normal s⟩

/-- A draw below any integer; one that is refused is not made. -/
theorem recordable_drawBelow (bound : Int) : Recordable fun _ _ s => Draw.below bound s := by
  intro σ hsource hfixed s
  by_cases hpos : 0 < bound
  · by_cases hreach : Source.Reaches s bound
    · obtain ⟨ds, hds⟩ := Recordable.bind (recordable_below bound.toNat (Word.toNat_pos hpos))
        (fun n => .pure (Except.ok n.val)) σ s
      refine ⟨ds, hds.congr fun τ _ u hu => ?_⟩
      rw [Draw.below, dif_pos hpos, if_pos (by rwa [Source.Reaches, hu])]
      rfl
    · obtain ⟨ds, hds⟩ := Recordable.pure (Except.error (Defect.greatDraw bound)) σ s
      refine ⟨ds, hds.congr fun τ _ u hu => ?_⟩
      rw [Draw.below, dif_pos hpos, if_neg (by rwa [Source.Reaches, hu])]
      rfl
  · obtain ⟨ds, hds⟩ := Recordable.pure (Except.error (Defect.emptyDraw bound)) σ s
    refine ⟨ds, hds.congr fun τ _ u _ => ?_⟩
    rw [Draw.below, dif_neg hpos]
    rfl

theorem recordable_drawChars : ∀ n : Nat, Recordable fun _ _ s => drawChars n s
  | 0 => .pure []
  | n + 1 => .bind (recordable_below 75 (by decide)) fun i =>
    .bind (recordable_drawChars n) fun cs => .pure (alphabet[i] :: cs)

theorem recordable_draw (shape : Shape) : Recordable fun _ _ s => shape.draw s := by
  cases shape with
  | uniform => exact recordable_fraction
  | normal => exact recordable_normal

end Drawing

/-! ## Calls -/

namespace Generator

open Drawing

/-- A call of a generator as a computation: what it gives, and the generator after it. -/
def call (g : Generator) : Drawing (Except Failure Value × Generator) :=
  fun _ _ s => (((g.next s).1, (g.next s).2.1), (g.next s).2.2)

theorem next_of_call {σ : Type} [Source σ] {g g' : Generator} {outcome : Except Failure Value} {s u : σ}
    (h : g.call σ s = ((outcome, g'), u)) : g.next s = (outcome, g', u) := by
  rw [← congrArg (fun x => (x.1.1, x.1.2, x.2)) h]
  rfl

/-- A generator that draws nothing leaves no draws. -/
theorem Sequential.recordable_call {g : Generator} (h : g.Sequential) : g.call.Recordable := by
  have heq : g.call = Drawing.pure (g.term 0, g.onward 1) := by
    funext σ _ s
    rw [call, next_eq h]
    rfl
  rw [heq]
  exact .pure _

/-- What becomes of a draw below an integer, if it is not refused. -/
theorem recordable_of_below {g : Generator} (bound : Int)
    {next : Nat → Drawing (Except Failure Value × Generator)} (hnext : ∀ n, (next n).Recordable)
    (heq : ∀ (σ : Type) [Source σ] (s : σ), g.call σ s = match Draw.below bound s with
      | (.ok n, u) => next n σ u
      | (.error e, u) => ((.error (.defect e), g), u)) : g.call.Recordable := by
  have hchain : g.call = Drawing.bind (fun _ _ s => Draw.below bound s) fun
      | .ok n => next n
      | .error e => Drawing.pure (.error (.defect e), g) := by
    funext σ _ s
    simp only [heq, Drawing.bind]
    rcases Draw.below bound s with ⟨e | n, u⟩ <;> rfl
  rw [hchain]
  refine .bind (recordable_drawBelow bound) fun r => ?_
  cases r with
  | ok n => exact hnext n
  | error e => exact .pure _

/-- A call of a generator that may be null draws a fraction, and goes on unless that is a null. -/
theorem call_nullable (p : Float) (inner : Generator) :
    (nullable p inner).call = Drawing.bind (fun _ _ s => Source.fraction s) fun x =>
      if x ≤ p then Drawing.pure (.ok .null, nullable p inner)
      else Drawing.bind inner.call fun r => Drawing.pure (r.1, nullable p r.2) := by
  funext σ _ s
  simp only [call, next, Drawing.bind]
  split <;> rfl

/-- **A call of a generator can be recorded**: the draws that it makes decide what it gives and what becomes
of the generator. -/
theorem recordable_call (g : Generator) : g.call.Recordable := by
  induction g with
  | range lower width scale kind =>
    exact .bind recordable_long fun n =>
      .pure (rangeValue n lower width scale kind, range lower width scale kind)
  | counter count scale kind =>
    have h : (counter count scale kind).Sequential := trivial
    exact h.recordable_call
  | days lower width scale buckets fallback kind =>
    by_cases hzero : buckets = 0
    · have h : (days lower width scale buckets fallback kind).Sequential := hzero
      exact h.recordable_call
    · refine recordable_of_below buckets (fun n => .pure
        ((dayOf lower width scale kind n).map .int, days lower width scale buckets fallback kind)) ?_
      intro σ _ s
      simp only [call, next, if_neg hzero]
      rcases Draw.below buckets s with ⟨e | n, u⟩ <;> rfl
  | pick items =>
    refine recordable_of_below items.length (fun n => .pure
      ((items[n]?).elim (.error (.defect .noSuchItem)) .ok, pick items)) ?_
    intro σ _ s
    simp only [call, next]
    rcases Draw.below items.length s with ⟨e | n, u⟩
    · rfl
    · cases hitem : items[n]? <;> simp [hitem, Drawing.pure]
  | rotate items index =>
    have h : (rotate items index).Sequential := trivial
    exact h.recordable_call
  | decimal shape lower width power single =>
    exact .bind (recordable_draw shape) fun x =>
      .pure ((place x lower width power single).map Value.float, decimal shape lower width power single)
  | text lower width =>
    refine recordable_of_below width (fun n => .bind (recordable_drawChars (n + lower).toNat)
      fun cs => .pure (.ok (.text (String.ofList cs)), text lower width)) ?_
    intro σ _ s
    simp only [call, next]
    rcases Draw.below width s with ⟨e | n, u⟩ <;> rfl
  | nullable p inner ih =>
    rw [call_nullable]
    refine .bind recordable_fraction fun x => ?_
    split
    · exact .pure _
    · exact .bind ih fun r => .pure _

end Generator

end RecordForge
