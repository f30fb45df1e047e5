import Mathlib.Data.List.Forall2
import RecordForge.Proofs.Sharing

/-!
# Columns that draw nothing

All fields of a recipe draw from one source, in turn, and how much a field draws may depend on what came
before. A field whose generator draws nothing can stand anywhere among them: the others get the values that
they would get without it.

* `Ledger.without`: a ledger but for one key.
* `Generator.Unfailing`: a generator draws nothing and cannot fail; `term_ok` and `onward_one` are what it gives
  and what it leaves.
* `Filling.Beside`, `fill_beside`, `fill_inserted`: two fillings that differ at most in one field and in the
  generator of it, with the same recipe and with one that has the field.
* `Bench.Beside`, `beside_fillRecord`, `beside_fills`: the same for benches, one record and any number of them.
* `column_fills`: what stands in the field.
* **`inserted_column_apart`**: what a field that draws nothing leaves to the others, and what it holds itself.
-/

namespace RecordForge

/-! ## A ledger but for one key -/

namespace Ledger

variable {κ α : Type} [DecidableEq κ]

/-- A ledger but for one key. -/
def without (l : Ledger κ α) (k : κ) : Ledger κ α := l.filter fun e => e.1 ≠ k

theorem without_cons_self (k : κ) (v : α) (rest : Ledger κ α) :
    without ((k, v) :: rest) k = without rest k :=
  List.filter_cons_of_neg (by simp)

theorem without_cons_ne {k q : κ} (h : k ≠ q) (v : α) (rest : Ledger κ α) :
    without ((k, v) :: rest) q = (k, v) :: without rest q :=
  List.filter_cons_of_pos (by simpa using h)

theorem get?_without {k q : κ} (h : q ≠ k) (l : Ledger κ α) : get? (without l k) q = get? l q :=
  get?_filter_ne h l

/-- What is left but for one key tells what stands under every other one. -/
theorem get?_of_without {l l' : Ledger κ α} {k q : κ} (hwithout : without l' k = without l k) (h : q ≠ k) :
    get? l' q = get? l q := by
  rw [← get?_without h l', hwithout, get?_without h l]

/-- A write under a key leaves the rest of the ledger. -/
theorem without_set_self (k : κ) (v : α) : ∀ l : Ledger κ α, without (set l k v) k = without l k
  | [] => without_cons_self k v []
  | (k', v') :: rest => by
    by_cases hk : k' = k
    · subst hk
      rw [set, if_pos rfl, without_cons_self, without_cons_self]
    · rw [set, if_neg hk, without_cons_ne hk, without_cons_ne hk, without_set_self k v rest]

/-- A write under another key is a write into the rest. -/
theorem without_set {k q : κ} (h : k ≠ q) (v : α) :
    ∀ l : Ledger κ α, without (set l k v) q = set (without l q) k v
  | [] => without_cons_ne h v []
  | (k', v') :: rest => by
    by_cases hk : k' = k
    · subst hk
      rw [set, if_pos rfl, without_cons_ne h, without_cons_ne h, set, if_pos rfl]
    · rw [set, if_neg hk]
      by_cases hq : k' = q
      · subst hq
        rw [without_cons_self, without_cons_self, without_set h v rest]
      · rw [without_cons_ne hq, without_cons_ne hq, set, if_neg hk, without_set h v rest]

end Ledger

variable {σ : Type} [Source σ]

/-! ## Generators that draw nothing and cannot fail -/

namespace Generator

/-- A generator draws nothing and cannot fail: a counter of longs, a rotation that stands at one of its items,
or days without buckets. -/
def Unfailing : Generator → Prop
  | counter _ _ kind => kind = .long
  | rotate items index => -(items.length : Int) ≤ index ∧ index < items.length
  | days _ _ _ buckets _ _ => buckets = 0
  | _ => False

theorem Unfailing.sequential {g : Generator} (h : g.Unfailing) : g.Sequential := by
  cases g <;> trivial

/-- There is an item at every position from the front or from the back. -/
theorem itemAt?_isSome {items : List Value} {i : Int} (hlow : -(items.length : Int) ≤ i)
    (hhigh : i < items.length) : ∃ v, itemAt? items i = some v := by
  unfold itemAt?
  split
  · have hlt : i.toNat < items.length := by omega
    exact ⟨_, List.getElem?_eq_getElem hlt⟩
  · have hlt : (items.length + i).toNat < items.length := by omega
    rw [if_pos (by omega)]
    exact ⟨_, List.getElem?_eq_getElem hlt⟩

/-- **A call of a generator that cannot fail** gives a value and leaves such a generator. -/
theorem next_unfailing {g : Generator} (h : g.Unfailing) (s : σ) :
    ∃ v, (g.next s).1 = .ok v ∧ (g.next s).2.1.Unfailing := by
  cases g with
  | counter count scale kind =>
    obtain rfl : kind = .long := h
    exact ⟨.int (Word.wrap (count * scale)), rfl, rfl⟩
  | rotate items index =>
    obtain ⟨v, hv⟩ := itemAt?_isSome h.1 h.2
    have hpositive : (0 : Int) < items.length := by have := h.1; have := h.2; omega
    have hlow := Int.emod_nonneg (index + 1) (Int.ne_of_gt hpositive)
    have hhigh := Int.emod_lt_of_pos (index + 1) hpositive
    simp only [next, hv]
    exact ⟨v, rfl, by omega, hhigh⟩
  | days lower width scale buckets fallback kind =>
    obtain rfl : buckets = 0 := h
    exact ⟨.int fallback, rfl, rfl⟩
  | _ => exact h.elim

theorem Unfailing.term_ok {g : Generator} (h : g.Unfailing) : ∃ v, g.term 0 = .ok v := by
  obtain ⟨v, hv, -⟩ := next_unfailing h ({} : Script)
  exact ⟨v, hv⟩

theorem Unfailing.onward_one {g : Generator} (h : g.Unfailing) : (g.onward 1).Unfailing := by
  obtain ⟨-, -, hunfailing⟩ := next_unfailing h ({} : Script)
  exact hunfailing

/-- The first values of such a generator begin with its first term, whatever the source. -/
theorem Unfailing.run_succ {g : Generator} (h : g.Unfailing) {v : Value} (hv : g.term 0 = .ok v) (n : Nat)
    (s : σ) : (g.run (n + 1) s).1 = v :: ((g.onward 1).run n s).1 := by
  rw [run, next_eq h.sequential, hv]

end Generator

/-! ## Filling one record -/

theorem fill_append : ∀ (before after : Recipe) (r : Record) (p : Pool) (s : σ),
    fill (before ++ after) r p s =
      match (fill before r p s).failure with
      | none => fill after (fill before r p s).record (fill before r p s).pool (fill before r p s).source
      | some _ => fill before r p s
  | [], after, r, p, s => rfl
  | (field, name) :: rest, after, r, p, s => by
    simp only [List.cons_append, fill]
    rcases p.next name s with ⟨e | v, p', s'⟩
    · rfl
    · exact fill_append rest after _ p' s'

/-- Two fillings that differ at most in one field and in the generator of it. -/
structure Filling.Beside (field name : String) (f f' : Filling σ) : Prop where
  failure : f'.failure = f.failure
  record : Ledger.without f'.record field = Ledger.without f.record field
  pool : Ledger.without f'.pool name = Ledger.without f.pool name
  source : f'.source = f.source

section OneRecord

variable {field name other : String} {r r' : Record} {p p' : Pool} {g : Generator}

/-- What a call gives depends on the generator that is called, and on no other one. -/
theorem next_beside (h : other ≠ name) (hpool : Ledger.without p' name = Ledger.without p name) (s : σ) :
    (p'.next other s).1 = (p.next other s).1 ∧
      Ledger.without (p'.next other s).2.1 name = Ledger.without (p.next other s).2.1 name ∧
      (p'.next other s).2.2 = (p.next other s).2.2 := by
  unfold Pool.next
  rw [Ledger.get?_of_without hpool h]
  cases Ledger.get? p other with
  | none => exact ⟨rfl, hpool, rfl⟩
  | some g => exact ⟨rfl, by rw [Ledger.without_set h, Ledger.without_set h, hpool], rfl⟩

/-- A recipe that does not name a field and a generator leaves both as they are. -/
theorem fill_leaves : ∀ {recipe : Recipe} (_ : field ∉ recipe.map Prod.fst)
    (_ : name ∉ recipe.map Prod.snd) (r : Record) (p : Pool) (s : σ),
    Ledger.get? (fill recipe r p s).record field = Ledger.get? r field ∧
      Ledger.get? (fill recipe r p s).pool name = Ledger.get? p name
  | [], _, _, r, p, s => ⟨rfl, rfl⟩
  | (q, other) :: rest, hfield, hname, r, p, s => by
    obtain ⟨hq, hfield⟩ := not_or.mp (mt List.mem_cons.mpr hfield)
    obtain ⟨hother, hname⟩ := not_or.mp (mt List.mem_cons.mpr hname)
    have hnext := get?_next (Ne.symm hother) p s
    simp only [fill]
    rcases hx : p.next other s with ⟨e | v, p₁, s₁⟩ <;> rw [hx] at hnext
    · exact ⟨rfl, hnext⟩
    · obtain ⟨hrecord, hpool⟩ := fill_leaves hfield hname (Ledger.set r q v) p₁ s₁
      refine ⟨hrecord.trans ?_, hpool.trans hnext⟩
      rw [Ledger.get?_set, if_neg (Ne.symm hq)]

/-- Such a recipe does the same whatever stands in the field and whatever the generator is. -/
theorem fill_beside : ∀ {recipe : Recipe} (_ : field ∉ recipe.map Prod.fst)
    (_ : name ∉ recipe.map Prod.snd) {r r' : Record} {p p' : Pool}
    (_ : Ledger.without r' field = Ledger.without r field)
    (_ : Ledger.without p' name = Ledger.without p name) (s : σ),
    (fill recipe r p s).Beside field name (fill recipe r' p' s)
  | [], _, _, _, _, _, _, hrecord, hpool, s => ⟨rfl, hrecord, hpool, rfl⟩
  | (q, other) :: rest, hfield, hname, r, r', p, p', hrecord, hpool, s => by
    obtain ⟨hq, hfield⟩ := not_or.mp (mt List.mem_cons.mpr hfield)
    obtain ⟨hother, hname⟩ := not_or.mp (mt List.mem_cons.mpr hname)
    obtain ⟨houtcome, hpool₁, hsource⟩ := next_beside (Ne.symm hother) hpool s
    simp only [fill]
    rcases hx : p.next other s with ⟨outcome, p₁, s₁⟩
    rcases hx' : p'.next other s with ⟨outcome', p₁', s₁'⟩
    rw [hx, hx'] at houtcome hpool₁ hsource
    obtain rfl : outcome' = outcome := houtcome
    obtain rfl : s₁' = s₁ := hsource
    cases outcome' with
    | error e => exact ⟨rfl, hrecord, hpool₁, rfl⟩
    | ok v =>
      refine fill_beside hfield hname ?_ hpool₁ s₁'
      rw [Ledger.without_set (Ne.symm hq), Ledger.without_set (Ne.symm hq), hrecord]

/-- A field whose generator cannot fail is written, and the filling goes on with the same source. -/
theorem fill_cons_unfailing (field : String) (h : g.Unfailing) (hg : Ledger.get? p name = some g)
    (rest : Recipe) (r : Record) (s : σ) : ∃ v, g.term 0 = .ok v ∧
      fill ((field, name) :: rest) r p s =
        fill rest (Ledger.set r field v) (Ledger.set p name (g.onward 1)) s := by
  obtain ⟨v, hv⟩ := h.term_ok
  have hnext : p.next name s = (.ok v, Ledger.set p name (g.onward 1), s) := by
    rw [Pool.next, hg]
    simp only [Generator.next_eq h.sequential, hv]
  exact ⟨v, hv, by rw [fill, hnext]⟩

variable {before after : Recipe} (hfield : field ∉ (before ++ after).map Prod.fst)
  (hname : name ∉ (before ++ after).map Prod.snd)
include hfield hname

/-- **A field that draws nothing is put among others**: they are filled as without it, and its generator stays
one that cannot fail. -/
theorem fill_inserted (h : g.Unfailing) (hg : Ledger.get? p' name = some g)
    (hrecord : Ledger.without r' field = Ledger.without r field)
    (hpool : Ledger.without p' name = Ledger.without p name) (s : σ) :
    (fill (before ++ after) r p s).Beside field name (fill (before ++ (field, name) :: after) r' p' s) ∧
      ∃ g', Ledger.get? (fill (before ++ (field, name) :: after) r' p' s).pool name = some g' ∧
        g'.Unfailing := by
  rw [List.map_append, List.mem_append, not_or] at hfield hname
  have hbefore := fill_beside hfield.1 hname.1 hrecord hpool s
  have hthere := (fill_leaves hfield.1 hname.1 r' p' s).2.trans hg
  rw [fill_append before after, fill_append before ((field, name) :: after), hbefore.failure]
  -- after a failure before the field neither filling goes on, and its generator is not called
  split
  · obtain ⟨v, -, hcons⟩ := fill_cons_unfailing field h hthere after (fill before r' p' s).record
      (fill before r' p' s).source
    rw [hcons, hbefore.source]
    constructor
    · refine fill_beside hfield.2 hname.2 ?_ ?_ _
      · rw [Ledger.without_set_self, hbefore.record]
      · rw [Ledger.without_set_self, hbefore.pool]
    · refine ⟨g.onward 1, (fill_leaves hfield.2 hname.2 _ _ _).2.trans ?_, h.onward_one⟩
      rw [Ledger.get?_set, if_pos rfl]
  · exact ⟨hbefore, g, hthere, h⟩

/-- **Where the record is filled**, the field holds the next term of its own sequence. -/
theorem fill_column (h : g.Unfailing) (hg : Ledger.get? p name = some g) {s : σ}
    (hfilled : (fill (before ++ (field, name) :: after) r p s).failure = none) :
    (∃ v, g.term 0 = .ok v ∧
        Ledger.get? (fill (before ++ (field, name) :: after) r p s).record field = some v) ∧
      Ledger.get? (fill (before ++ (field, name) :: after) r p s).pool name = some (g.onward 1) := by
  rw [List.map_append, List.mem_append, not_or] at hfield hname
  have hthere := (fill_leaves hfield.1 hname.1 r p s).2.trans hg
  rw [fill_append] at hfilled ⊢
  split at hfilled
  · obtain ⟨v, hv, hcons⟩ := fill_cons_unfailing field h hthere after (fill before r p s).record
      (fill before r p s).source
    rw [hcons]
    obtain ⟨hcell, hpool⟩ := fill_leaves hfield.2 hname.2 (Ledger.set (fill before r p s).record field v)
      (Ledger.set (fill before r p s).pool name (g.onward 1)) (fill before r p s).source
    rw [Ledger.get?_set, if_pos rfl] at hcell hpool
    exact ⟨⟨v, hv, hcell⟩, hpool⟩
  · rename_i hfailure
    rw [hfailure] at hfilled
    exact absurd hfilled (Option.some_ne_none _)

end OneRecord

/-! ## Filling any number of records -/

/-- Two answers with the same record but for one field, and with the same failure. -/
inductive Answer.Beside (field : String) : Answer → Answer → Prop
  | record {r r' : Record} (failure : Option Failure)
      (h : Ledger.without r' field = Ledger.without r field) :
      Beside field (.record r failure) (.record r' failure)

namespace Answer

/-- What stands in a field of the record that is answered. -/
def cell (field : String) : Answer → Option Value
  | .record r _ => Ledger.get? r field
  | _ => none

/-- A record that was filled to its end is answered. -/
def Filled : Answer → Prop
  | .record _ e => e = none
  | _ => False

end Answer

namespace Bench

/-- A bench with a recipe written down. -/
def withRecipe (b : Bench σ) (label : String) (recipe : BoundRecipe) : Bench σ :=
  { b with recipes := Ledger.set b.recipes label recipe }

/-- Fill records by a recipe, one after the other. -/
def fills (b : Bench σ) (label : String) (recipe : BoundRecipe) (records : List String) :
    Bench σ × List Answer :=
  (b.withRecipe label recipe).run (records.map (Step.fill label))

theorem get?_withRecipe {σ : Type} (b : Bench σ) (label : String) (recipe : BoundRecipe) :
    Ledger.get? (b.withRecipe label recipe).recipes label = some recipe := by
  rw [withRecipe, Ledger.get?_set, if_pos rfl]

end Bench

/-- Two benches with a recipe each that differ at most in one field and in the generator of it. -/
structure Bench.Beside (field name : String) (b b' : Bench σ) : Prop where
  sources : b'.sources = b.sources
  spare : b'.spare = b.spare
  owned : b'.owned = b.owned
  pool : Ledger.without b'.pool name = Ledger.without b.pool name
  records : ∀ record, Ledger.without ((Ledger.get? b'.records record).getD []) field =
    Ledger.without ((Ledger.get? b.records record).getD []) field

section ManyRecords

variable {field name label : String} {before after : Recipe} {source : Option String} {own : Nat} {g : Generator}

/-- The bench after a record is filled by a recipe of it. -/
theorem step_fill {b : Bench σ} {recipe : BoundRecipe}
    (hrecipe : Ledger.get? b.recipes label = some recipe) (record : String) :
    b.step (.fill label record) = b.fillRecord recipe record := by
  rw [Bench.step, hrecipe]
  rfl

theorem recipes_fillRecord (b : Bench σ) (recipe : BoundRecipe) (record : String) :
    (b.fillRecord recipe record).1.recipes = b.recipes := by
  obtain ⟨sources, owned, h⟩ := Bench.exists_putSourceOf _ recipe _
  exact (congrArg Bench.recipes h).trans rfl

theorem pool_fillRecord (b : Bench σ) (recipe : BoundRecipe) (record : String) :
    (b.fillRecord recipe record).1.pool =
      (fill recipe.recipe ((Ledger.get? b.records record).getD []) b.pool (b.sourceOf recipe)).pool :=
  Bench.pool_putSourceOf _ recipe _

variable (hfield : field ∉ (before ++ after).map Prod.fst) (hname : name ∉ (before ++ after).map Prod.snd)
include hfield hname

/-- **One record of two benches**, one of which has the field. -/
theorem beside_fillRecord {b b' : Bench σ} (hbeside : b.Beside field name b') (h : g.Unfailing)
    (hg : Ledger.get? b'.pool name = some g) (source : Option String) (own : Nat) (record : String) :
    Answer.Beside field (b.fillRecord ⟨before ++ after, source, own⟩ record).2
        (b'.fillRecord ⟨before ++ (field, name) :: after, source, own⟩ record).2 ∧
      (b.fillRecord ⟨before ++ after, source, own⟩ record).1.Beside field name
        (b'.fillRecord ⟨before ++ (field, name) :: after, source, own⟩ record).1 ∧
      ∃ g', Ledger.get? (b'.fillRecord ⟨before ++ (field, name) :: after, source, own⟩ record).1.pool name =
        some g' ∧ g'.Unfailing := by
  have hsource (r r' : Recipe) : b'.sourceOf ⟨r', source, own⟩ = b.sourceOf ⟨r, source, own⟩ := by
    simp only [Bench.sourceOf, Bench.source, hbeside.sources, hbeside.spare, hbeside.owned]
  obtain ⟨hfilling, hthere⟩ := fill_inserted hfield hname h hg (hbeside.records record) hbeside.pool
    (b.sourceOf ⟨before ++ after, source, own⟩)
  have hrecords (q : String) (r r' : Record) (hr : Ledger.without r' field = Ledger.without r field) :
      Ledger.without ((Ledger.get? (Ledger.set b'.records record r') q).getD []) field =
        Ledger.without ((Ledger.get? (Ledger.set b.records record r) q).getD []) field := by
    rw [Ledger.get?_set, Ledger.get?_set]
    by_cases hq : record = q
    · rw [if_pos hq, if_pos hq]
      exact hr
    · rw [if_neg hq, if_neg hq]
      exact hbeside.records q
  refine ⟨?_, ?_, by rw [pool_fillRecord, hsource (before ++ after)]; exact hthere⟩
  · simp only [Bench.fillRecord, hsource (before ++ after), hfilling.failure]
    exact .record _ hfilling.record
  · simp only [Bench.fillRecord, hsource (before ++ after), hfilling.source]
    cases source with
    | none =>
      refine ⟨hbeside.sources, hbeside.spare, ?_, hfilling.pool, fun q => hrecords q _ _ hfilling.record⟩
      simp only [Bench.putSourceOf, hbeside.owned]
    | some source =>
      refine ⟨?_, hbeside.spare, hbeside.owned, hfilling.pool, fun q => hrecords q _ _ hfilling.record⟩
      simp only [Bench.putSourceOf, Bench.putSource, hbeside.sources]

/-- **Any number of records.** -/
theorem beside_fills : ∀ (records : List String) {b b' : Bench σ} {g : Generator}
    (_ : b.Beside field name b') (_ : g.Unfailing) (_ : Ledger.get? b'.pool name = some g)
    (_ : Ledger.get? b.recipes label = some ⟨before ++ after, source, own⟩)
    (_ : Ledger.get? b'.recipes label = some ⟨before ++ (field, name) :: after, source, own⟩),
    List.Forall₂ (Answer.Beside field) (b.run (records.map (Step.fill label))).2
        (b'.run (records.map (Step.fill label))).2 ∧
      (b.run (records.map (Step.fill label))).1.Beside field name
        (b'.run (records.map (Step.fill label))).1
  | [], _, _, _, hbeside, _, _, _, _ => ⟨.nil, hbeside⟩
  | record :: rest, b, b', g, hbeside, h, hg, hrecipe, hrecipe' => by
    obtain ⟨hanswer, hnext, g', hg', h'⟩ := beside_fillRecord hfield hname hbeside h hg source own record
    simp only [List.map_cons, Bench.run, step_fill hrecipe, step_fill hrecipe']
    obtain ⟨hanswers, hlast⟩ := beside_fills rest hnext h' hg'
      ((congrArg (Ledger.get? · label) (recipes_fillRecord b _ record)).trans hrecipe)
      ((congrArg (Ledger.get? · label) (recipes_fillRecord b' _ record)).trans hrecipe')
    exact ⟨.cons hanswer hanswers, hlast⟩

/-- **What stands in the field** where every record is filled: the values that the generator gives by itself,
with any source. -/
theorem column_fills {τ : Type} [Source τ] (u : τ) : ∀ (records : List String) {b : Bench σ} {g : Generator}
    (_ : g.Unfailing) (_ : Ledger.get? b.pool name = some g)
    (_ : Ledger.get? b.recipes label = some ⟨before ++ (field, name) :: after, source, own⟩)
    (_ : ∀ a ∈ (b.run (records.map (Step.fill label))).2, a.Filled),
    (b.run (records.map (Step.fill label))).2.map (Answer.cell field) =
      (g.run records.length u).1.map some
  | [], _, _, _, _, _, _ => rfl
  | record :: rest, b, g, h, hg, hrecipe, hfilled => by
    simp only [List.map_cons, Bench.run, step_fill hrecipe] at hfilled ⊢
    obtain ⟨hhead, hrest⟩ := List.forall_mem_cons.mp hfilled
    obtain ⟨⟨v, hv, hcell⟩, hpool⟩ := fill_column (r := (Ledger.get? b.records record).getD [])
      (s := b.sourceOf ⟨before ++ (field, name) :: after, source, own⟩) hfield hname h hg hhead
    have ih := column_fills u rest h.onward_one
      ((congrArg (Ledger.get? · name) (pool_fillRecord b _ record)).trans hpool)
      ((congrArg (Ledger.get? · label) (recipes_fillRecord b _ record)).trans hrecipe) hrest
    rw [ih, List.length_cons, h.run_succ hv, List.map_cons]
    exact congrArg (· :: _) hcell

end ManyRecords

/-- **A column that draws nothing stays apart from the others.** Take a bench with a generator that draws
nothing and cannot fail, a recipe that does not call it, and a field that the recipe does not have. Put the
field with this generator anywhere among the others, and fill any records by either recipe. The answers are
records that are the same but for the field, and fail alike, one by one; what is left of every source is the
same. Where no record fails, on whatever bench and with whatever source, the field holds the values that the
generator gives by itself. -/
theorem inserted_column_apart {b : Bench σ} {name : String} {g : Generator}
    (hg : Ledger.get? b.pool name = some g) (h : g.Unfailing) {field : String} {before after : Recipe}
    (hfield : field ∉ (before ++ after).map Prod.fst) (hname : name ∉ (before ++ after).map Prod.snd)
    (label : String) (source : Option String) (own : Nat) (records : List String) {υ : Type} [Source υ] (u : υ) :
    let bare := b.fills label ⟨before ++ after, source, own⟩ records
    let wide := b.fills label ⟨before ++ (field, name) :: after, source, own⟩ records
    List.Forall₂ (Answer.Beside field) bare.2 wide.2 ∧
      wide.1.sources = bare.1.sources ∧ wide.1.spare = bare.1.spare ∧ wide.1.owned = bare.1.owned ∧
      ∀ (τ : Type) [Source τ] (c : Bench τ), Ledger.get? c.pool name = some g →
        (∀ a ∈ (c.fills label ⟨before ++ (field, name) :: after, source, own⟩ records).2, a.Filled) →
        (c.fills label ⟨before ++ (field, name) :: after, source, own⟩ records).2.map (Answer.cell field) =
          (g.run records.length u).1.map some := by
  intro bare wide
  have hbeside : (b.withRecipe label ⟨before ++ after, source, own⟩).Beside field name
      (b.withRecipe label ⟨before ++ (field, name) :: after, source, own⟩) := ⟨rfl, rfl, rfl, rfl, fun _ => rfl⟩
  obtain ⟨hanswers, hlast⟩ := beside_fills hfield hname records hbeside h hg (b.get?_withRecipe _ _)
    (b.get?_withRecipe _ _)
  exact ⟨hanswers, hlast.sources, hlast.spare, hlast.owned, fun τ _ c hc hfilled =>
    column_fills hfield hname u records h hc (c.get?_withRecipe _ _) hfilled⟩

/-- A bench with a counter of longs, a counter of integers, and a choice of two texts that is drawn. -/
def tillBench (level : Int) (draws : Array Int) : Bench Script where
  pool := [("count", .counter 5 2 .long), ("level", .counter level 1 .int), ("side", .pick [.text "L", .text "R"])]
  sources := [("s", { ints := ⟨draws, 0⟩ })]
  spare := {}

/-- The second record fails after the column, with it and without it, as the integers come to an end. -/
theorem inserted_column_apart_till :
    List.Forall₂ (Answer.Beside "id")
        [.record [("x", .text "L"), ("y", .int 2147483647)] none,
          .record [("x", .text "R"), ("y", .int 2147483647)] (some (.misfit 2147483648))]
        [.record [("x", .text "L"), ("id", .int 10), ("y", .int 2147483647)] none,
          .record [("x", .text "R"), ("id", .int 12), ("y", .int 2147483647)] (some (.misfit 2147483648))] ∧
      ((tillBench 0 #[1]).fills "till" ⟨[("x", "side"), ("id", "count"), ("y", "level")], some "s", 0⟩
        ["r", "r"]).2.map (Answer.cell "id") = [some (.int 10), some (.int 12)] := by
  have hcount : Ledger.get? (tillBench 2147483647 #[0, 1]).pool "count" = some (.counter 5 2 .long) := rfl
  have hfield : "id" ∉ ([("x", "side")] ++ [("y", "level")]).map Prod.fst := by decide
  have hname : "count" ∉ ([("x", "side")] ++ [("y", "level")]).map Prod.snd := by decide
  obtain ⟨hanswers, -, -, -, hcolumn⟩ :=
    inserted_column_apart hcount rfl hfield hname "till" (some "s") 0 ["r", "r"] ({} : Script)
  refine ⟨hanswers, hcolumn Script (tillBench 0 #[1]) rfl fun a ha => ?_⟩
  rcases List.mem_cons.mp ha with rfl | ha
  · rfl
  · rw [List.mem_singleton.mp ha]
    rfl

end RecordForge
