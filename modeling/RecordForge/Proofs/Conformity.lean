import RecordForge.Draw.Script
import RecordForge.Proofs.Loading
import RecordForge.Proofs.Moves
import RecordForge.Proofs.Resolution
import RecordForge.Recipe.Basic

/-!
# Generated values suit their fields

A generator is built from a strategy once and then gives values for as long as a run lasts, whatever
the source draws. What it can give is bounded by an invariant, `Generator.Suits`, that is true of the
generator of every valid strategy and is kept by every step, also by one that fails.

* `Generator.Suits`: every value that a generator can come to give is one of its leaf's, or a null
  of positive odds.
* `suits_of_resolution`: the generator that a dialog settles has the invariant.
* `next_suits`, `next_conforms`: one step keeps it, and what it gives is as it says.
* `fill_conforms`, `returned_conforms`: a record that is filled, once and any number of times, after failures too.
* **`filled_values_conform`**: every value of every record of a configured schema suits its field.
-/

namespace RecordForge

open Calendar Dialog

/-! ## The invariant -/

/-- What is true of a generator all of whose values are null or values of a field. Nulls come of
probabilities among those given. -/
def Generator.Suits (d : Descriptor) (odds : List Float) : Generator → Prop
  | .range _ _ _ kind => d.kind.isInteger = true ∧ kind = d.kind
  | .counter _ _ kind => d.kind.isInteger = true ∧ kind = d.kind
  | .days _ _ _ _ fallback kind => d.kind.isInteger = true ∧ kind = d.kind ∧ d.Holds (.int fallback)
  | .pick items => ∀ v ∈ items, d.Holds v
  | .rotate items _ => ∀ v ∈ items, d.Holds v
  | .decimal .. => d.kind.isDecimal = true
  | .text .. => d.kind = .string
  | .nullable p inner => p ∈ odds ∧ p > 0.0 ∧ inner.Suits d odds

/-- A value of a field, or a null where one of some probabilities is positive. -/
def Conforms (d : Descriptor) (odds : List Float) (v : Value) : Prop :=
  d.Holds v ∨ v = .null ∧ ∃ p ∈ odds, p > 0.0

/-! ## Values -/

section Values

variable {d : Descriptor} {odds : List Float}

/-- What `fit` lets pass into an integer field is one of its values. -/
theorem holds_of_fit {n w : Int} (hd : d.kind.isInteger = true) (h : fit n d.kind = .ok w) :
    d.Holds (.int w) := by
  simp only [fit] at h
  split at h
  · cases h
  rename_i hfit
  cases h
  obtain ⟨name, kind, symbols, members, nullable⟩ := d
  cases kind with
  | int =>
    have hw : Word.IsInt (Word.wrap n) := Decidable.byContradiction fun hw => hfit ⟨rfl, hw⟩
    exact hw
  | long => exact Word.isLong_wrap n
  | _ => cases hd

theorem holds_of_map_fit {n : Int} {v : Value} (hd : d.kind.isInteger = true)
    (h : (fit n d.kind).map .int = .ok v) : d.Holds v := by
  cases hf : fit n d.kind with
  | error e => rw [hf] at h; cases h
  | ok w => rw [hf] at h; cases h; exact holds_of_fit hd hf

theorem holds_of_rangeValue {n lower width scale : Int} {v : Value} (hd : d.kind.isInteger = true)
    (h : Generator.rangeValue n lower width scale d.kind = .ok v) : d.Holds v := by
  obtain ⟨offset, -, h⟩ := bind_eq_ok.mp h
  obtain ⟨w, hw, h⟩ := bind_eq_ok.mp h
  cases h
  exact holds_of_fit hd hw

theorem holds_of_dayOf {lower : Date} {width scale : Int} {bucket : Nat} {v : Value}
    (hd : d.kind.isInteger = true)
    (h : (Generator.dayOf lower width scale d.kind bucket).map .int = .ok v) : d.Holds v := by
  unfold Generator.dayOf at h
  split at h
  · exact holds_of_map_fit hd h
  · cases h

theorem itemAt?_mem {α : Type} {items : List α} {i : Int} {v : α} (h : itemAt? items i = some v) :
    v ∈ items := by
  unfold itemAt? at h
  split at h
  · exact List.mem_of_getElem? h
  · split at h
    · exact List.mem_of_getElem? h
    · cases h

theorem holds_float (hd : d.kind.isDecimal = true) (x : Float) : d.Holds (.float x) := by
  obtain ⟨name, kind, symbols, members, nullable⟩ := d
  cases kind with
  | float | double => trivial
  | _ => cases hd

theorem holds_text (hd : d.kind = .string) (s : String) : d.Holds (.text s) := by
  unfold Descriptor.Holds
  rw [hd]
  trivial

end Values

/-! ## Steps -/

section Steps

variable {σ : Type} [Source σ] {d : Descriptor} {odds : List Float}

/-- A move keeps the invariant. -/
theorem Generator.Moves.suits {g g' : Generator} (h : g.Moves g') (hg : g.Suits d odds) :
    g'.Suits d odds := by
  induction h with
  | stays | counts | turns => exact hg
  | within p _ ih => exact ⟨hg.1, hg.2.1, ih hg.2.2⟩

/-- A step keeps the invariant, whether it gives a value or fails. -/
theorem next_suits {g : Generator} (hg : g.Suits d odds) (s : σ) : (g.next s).2.1.Suits d odds :=
  (Generator.moves_next g s).suits hg

/-- **A value that a step gives is the field's or a null of positive odds.** -/
theorem next_conforms {g : Generator} {v : Value} (hg : g.Suits d odds) {s : σ}
    (h : (g.next s).1 = .ok v) : Conforms d odds v := by
  induction g generalizing s with
  | range lower width scale kind =>
    obtain ⟨hd, rfl⟩ := hg
    exact Or.inl (holds_of_rangeValue hd h)
  | counter count scale kind =>
    obtain ⟨hd, rfl⟩ := hg
    exact Or.inl (holds_of_map_fit hd h)
  | days lower width scale buckets fallback kind =>
    obtain ⟨hd, rfl, hfallback⟩ := hg
    simp only [Generator.next] at h
    split at h
    · cases h; exact Or.inl hfallback
    · split at h
      · exact Or.inl (holds_of_dayOf hd h)
      · cases h
  | pick items =>
    simp only [Generator.next] at h
    split at h
    · split at h
      · rename_i hv
        cases h
        exact Or.inl (hg _ (List.mem_of_getElem? hv))
      · cases h
    · cases h
  | rotate items index =>
    simp only [Generator.next] at h
    split at h
    · rename_i hv
      cases h
      exact Or.inl (hg _ (itemAt?_mem hv))
    · cases h
  | decimal shape lower width power single =>
    simp only [Generator.next] at h
    cases hx : place (shape.draw s).1 lower width power single with
    | error e => rw [hx] at h; cases h
    | ok x => rw [hx] at h; cases h; exact Or.inl (holds_float hg x)
  | text lower width =>
    simp only [Generator.next] at h
    split at h
    · cases h; exact Or.inl (holds_text hg _)
    · cases h
  | nullable p inner ih =>
    simp only [Generator.next] at h
    split at h
    · cases h; exact Or.inr ⟨rfl, p, hg.1, hg.2.1⟩
    · exact ih hg.2.2 h

end Steps

/-! ## Generators of strategies -/

section Built

variable {d : Descriptor} {odds : List Float}

/-- A stamp that is a day has at most eight digits, so it is a 32-bit word. -/
theorem isInt_of_readStamp {n : Int} {a : Date} (h : readStamp n = .day a) : Word.IsInt n := by
  unfold readStamp at h
  split at h
  · cases h
  split at h
  · cases h
  split at h
  · rename_i b hb
    unfold Date.of? at hb
    split at hb
    · rename_i hday
      have hyear := hday.2.1
      simp only [Word.IsInt, Word.minInt, Word.maxInt]
      omega
    · cases hb
  · cases h

theorem holds_int_of_isInt {n : Int} (hd : d.kind.isInteger = true) (h : Word.IsInt n) :
    d.Holds (.int n) := by
  obtain ⟨name, kind, symbols, members, nullable⟩ := d
  cases kind with
  | int => exact h
  | long => exact h.isLong
  | _ => cases hd

theorem ofItems_suits {mode : Mode} {items : List Value} (h : ∀ v ∈ items, d.Holds v) :
    (Generator.ofItems mode items).Suits d odds := by
  unfold Generator.ofItems
  split <;> exact h

theorem integerGenerator_suits {s : Strategy} {g : Generator} (hd : d.kind.isInteger = true)
    (hv : s.ItemsFor d ∨ s.items = none ∧ ∃ lower upper, s.IntegerSpan lower upper)
    (h : s.integerGenerator d.kind = .ok g) : g.Suits d odds := by
  unfold Strategy.integerGenerator at h
  rcases hv with ⟨items, hi, -, hitems⟩ | ⟨hi, lower, upper, hspan⟩
  · rw [hi] at h
    cases h
    exact ofItems_suits hitems
  · rw [hi, hspan.bounds] at h
    simp only [Generator.ofIntegers] at h
    split at h
    · cases h; exact ⟨hd, rfl⟩
    · rename_i hmode
      obtain ⟨a, b, ha, hb, -⟩ := hspan.dates hmode
      simp only [Generator.ofStamps, ha, hb] at h
      split at h
      · cases h
      cases h
      -- without a bucket, one of the two stamps is the value
      refine ⟨hd, rfl, holds_int_of_isInt hd ?_⟩
      split
      · exact isInt_of_readStamp ha
      · exact isInt_of_readStamp hb
    · cases h; exact ⟨hd, rfl⟩

theorem textGenerator_suits {s : Strategy} {g : Generator} (hd : d.kind = .string)
    (hv : s.ItemsFor d ∨ s.items = none ∧ ∃ lower upper, s.LengthSpan lower upper)
    (h : s.textGenerator = .ok g) : g.Suits d odds := by
  unfold Strategy.textGenerator at h
  rcases hv with ⟨items, hi, -, hitems⟩ | ⟨hi, lower, upper, hspan⟩
  · rw [hi] at h
    cases h
    exact ofItems_suits hitems
  · rw [hi, hspan.bounds] at h
    cases h
    exact hd

theorem enumGenerator_suits {s : Strategy} (hd : d.kind = .enum)
    (hv : s.ItemsFor d ∨ s.items = none) : (s.enumGenerator d.symbols).Suits d odds := by
  unfold Strategy.enumGenerator
  rcases hv with ⟨items, hi, -, hitems⟩ | hi
  · rw [hi]
    exact ofItems_suits hitems
  · rw [hi]
    refine ofItems_suits fun v hv => ?_
    obtain ⟨t, ht, rfl⟩ := List.mem_map.mp hv
    unfold Descriptor.Holds
    rw [hd]
    exact ht

/-- The generator of a valid strategy gives values of its field. -/
theorem generator_suits {s : Strategy} {g : Generator} (hv : s.Valid d)
    (h : s.generator d = .ok g) : g.Suits d odds := by
  have hc := hv.content
  unfold Strategy.generator at h
  unfold Strategy.Content at hc
  cases hd : d.kind with
  | int | long =>
    simp only [hd] at h hc
    rw [← hd] at h
    exact integerGenerator_suits (by rw [hd]; rfl) hc h
  | float | double =>
    simp only [hd] at h hc
    obtain ⟨-, lower, upper, hspan⟩ := hc
    rw [Strategy.decimalGenerator, hspan.bounds] at h
    cases h
    exact (by rw [hd]; rfl : d.kind.isDecimal = true)
  | string =>
    simp only [hd] at h hc
    exact textGenerator_suits hd hc h
  | enum =>
    simp only [hd] at h hc
    cases h
    exact enumGenerator_suits hd hc
  | _ => simp only [hd] at hc

/-- The invariant does not depend on probabilities that are not used. -/
theorem Generator.Suits.mono {odds' : List Float} (hsub : ∀ p ∈ odds, p ∈ odds') :
    ∀ {g : Generator}, g.Suits d odds → g.Suits d odds'
  | .range .., h | .counter .., h | .days .., h | .pick _, h | .rotate .., h | .decimal .., h
  | .text .., h => h
  | .nullable _ _, h => ⟨hsub _ h.1, h.2.1, Generator.Suits.mono hsub h.2.2⟩

/-- Wrapping the nulls of unions around a generator keeps the invariant, with their odds. -/
theorem wrap_suits {core : Generator} : ∀ {path : List Stage}, core.Suits d [] →
    (path.foldr Stage.wrap core).Suits d (path.filterMap Stage.odds)
  | [], h => h
  | ⟨union, none⟩ :: rest, h =>
    show (rest.foldr Stage.wrap core).Suits d (rest.filterMap Stage.odds) from wrap_suits h
  | ⟨union, some p⟩ :: rest, h => by
    have hrest : (rest.foldr Stage.wrap core).Suits d (rest.filterMap Stage.odds) := wrap_suits h
    have hrest := hrest.mono fun q hq => List.mem_cons_of_mem p hq
    show (withNull p (rest.foldr Stage.wrap core)).Suits d (p :: rest.filterMap Stage.odds)
    unfold withNull
    split
    · rename_i hp
      exact ⟨List.mem_cons_self, hp, hrest⟩
    · exact hrest

/-- **The generator that a resolution settles gives values of the leaf it leads to, and nulls of the
odds answered on the way.** -/
theorem suits_of_resolution {r : Resolution} (h : r.Sound d) : r.generator.Suits r.leaf r.odds :=
  wrap_suits (generator_suits h.valid h.built)

end Built

/-! ## Records -/

section Records

variable {σ : Type} [Source σ] {d : Descriptor} {odds : List Float} {name : String}

/-- A pool has, under a name, a generator with the invariant. -/
def Pool.SuitsAt (p : Pool) (name : String) (d : Descriptor) (odds : List Float) : Prop :=
  ∃ g, Ledger.get? p name = some g ∧ g.Suits d odds

/-- A record has, under a name, a value of a field or a null of positive odds. -/
def ConformsAt (r : Record) (name : String) (d : Descriptor) (odds : List Float) : Prop :=
  ∃ v, Ledger.get? r name = some v ∧ Conforms d odds v

/-- Taking a value from a pool keeps the invariant under every name. -/
theorem pool_next_suits {p : Pool} (hp : p.SuitsAt name d odds) (from' : String) (s : σ) :
    (p.next from' s).2.1.SuitsAt name d odds := by
  obtain ⟨g, hg, hs⟩ := hp
  unfold Pool.next
  cases hf : Ledger.get? p from' with
  | none => exact ⟨g, hg, hs⟩
  | some g' =>
    by_cases he : from' = name
    · subst he
      obtain rfl := Option.some.inj (hf.symm.trans hg)
      exact ⟨_, by rw [Ledger.get?_set, if_pos rfl], next_suits hs s⟩
    · exact ⟨g, by rw [Ledger.get?_set, if_neg he]; exact hg, hs⟩

theorem pool_next_conforms {p : Pool} (hp : p.SuitsAt name d odds) {s : σ} {v : Value}
    (h : (p.next name s).1 = .ok v) : Conforms d odds v := by
  obtain ⟨g, hg, hs⟩ := hp
  simp only [Pool.next, hg] at h
  exact next_conforms hs h

/-- Filling a record keeps the invariant, also when it fails. -/
theorem fill_suits : ∀ {recipe : Recipe} {record : Record} {p : Pool} {s : σ},
    p.SuitsAt name d odds → (fill recipe record p s).pool.SuitsAt name d odds
  | [], _, _, _, hp => hp
  | (field, own) :: rest, record, p, s, hp => by
    have hn := pool_next_suits hp own s
    simp only [fill]
    split
    · rename_i v p' s' hnext
      rw [hnext] at hn
      exact fill_suits hn
    · rename_i e p' s' hnext
      rw [hnext] at hn
      exact hn

/-- **A record that is filled to its end has a conforming value under every field that its own
generator fills.** A value that is there before stays or is replaced by such a value. -/
theorem fill_conforms : ∀ {recipe : Recipe} {record : Record} {p : Pool} {s : σ},
    (∀ e ∈ recipe, e.2 = e.1) → p.SuitsAt name d odds →
    (fill recipe record p s).failure = none →
    name ∈ recipe.map Prod.fst ∨ ConformsAt record name d odds →
      ConformsAt (fill recipe record p s).record name d odds
  | [], _, _, _, _, _, _, hmem => hmem.resolve_left List.not_mem_nil
  | (field, own) :: rest, record, p, s, hown, hp, hf, hmem => by
    obtain rfl : own = field := hown _ List.mem_cons_self
    have hn := pool_next_suits hp own s
    simp only [fill] at hf ⊢
    split at hf
    · rename_i v p' s' hnext
      rw [hnext] at hn
      refine fill_conforms (fun e he => hown e (List.mem_cons_of_mem _ he)) hn hf ?_
      by_cases he : own = name
      · subst he
        refine Or.inr ⟨v, by rw [Ledger.get?_set, if_pos rfl], ?_⟩
        exact pool_next_conforms hp (by rw [hnext])
      · refine hmem.imp (fun hm => ?_) fun ⟨w, hw, hc⟩ => ⟨w, ?_, hc⟩
        · exact (List.mem_cons.mp hm).resolve_left fun h => he h.symm
        · rw [Ledger.get?_set, if_neg he]; exact hw
    · cases hf

/-- The record after each call that returns, when calls fill one record again and again, also after some of them have
failed. -/
def returned (recipe : Recipe) : (calls : Nat) → Filling σ → List Record
  | 0, _ => []
  | calls + 1, f =>
    let f := fill recipe f.record f.pool f.source
    match f.failure with
    | some _ => returned recipe calls f
    | none => f.record :: returned recipe calls f

/-- A run that stops at the first failure has made the records of the calls before it. -/
theorem returned_of_fillTimes {recipe : Recipe} : ∀ {count : Nat} {f : Filling σ},
    (fillTimes recipe count f).1 <+: returned recipe count f
  | 0, _ => List.prefix_rfl
  | count + 1, f => by
    simp only [fillTimes, returned]
    cases hf : (fill recipe f.record f.pool f.source).failure with
    | some e => exact List.nil_prefix
    | none => exact (List.prefix_cons_inj _).mpr returned_of_fillTimes

/-- **After every call that returns a record has a conforming value** under a field of the recipe, whatever the calls
before it did. -/
theorem returned_conforms {recipe : Recipe} (hown : ∀ e ∈ recipe, e.2 = e.1)
    (hname : name ∈ recipe.map Prod.fst) : ∀ {calls : Nat} {f : Filling σ},
      f.pool.SuitsAt name d odds → ∀ record ∈ returned recipe calls f, ConformsAt record name d odds
  | 0, _, _, record, hr => absurd hr List.not_mem_nil
  | calls + 1, f, hp, record, hr => by
    simp only [returned] at hr
    split at hr
    · exact returned_conforms hown hname (fill_suits hp) record hr
    · rename_i hf
      rcases List.mem_cons.mp hr with rfl | hr
      · exact fill_conforms hown hp hf (Or.inl hname)
      · exact returned_conforms hown hname (fill_suits hp) record hr

/-- Every record of a run of fillings has a conforming value under a field of the recipe. -/
theorem fillTimes_conforms {recipe : Recipe} (hown : ∀ e ∈ recipe, e.2 = e.1)
    (hname : name ∈ recipe.map Prod.fst) {count : Nat} {f : Filling σ} (hp : f.pool.SuitsAt name d odds) :
    ∀ record ∈ (fillTimes recipe count f).1, ConformsAt record name d odds :=
  fun record hr => returned_conforms hown hname hp record (returned_of_fillTimes.subset hr)

theorem mem_keys_of_get? {κ α : Type} [DecidableEq κ] : ∀ {l : Ledger κ α} {k : κ} {v : α},
    Ledger.get? l k = some v → k ∈ Ledger.keys l
  | [], _, _, h => by cases h
  | (k', v') :: rest, k, v, h => by
    simp only [Ledger.get?] at h
    split at h
    · rename_i he
      exact he ▸ List.mem_cons_self
    · exact List.mem_cons_of_mem _ (mem_keys_of_get? h)

end Records

/-! ## Runs -/

/-- A pool's own recipe fills every field with the generator under its name. -/
theorem own_of_mem_recipe {p : Pool} : ∀ e ∈ p.recipe, e.2 = e.1 := by
  intro e he
  obtain ⟨name, -, rfl⟩ := List.mem_map.mp he
  rfl

/-- **Every value that is generated suits its field.** A schema is loaded, its fields are settled in a
dialog, and one record is filled again and again. In the dialog each field `d` was resolved in its
turn, to a leaf of the kind that is settled for it; in every filled record the value under the name of
`d` is one of the leaf's values, or it is null and one of the probabilities answered on the way from
`d` to the leaf is positive. So it is after a call that failed, too, if the record is filled once more. -/
theorem filled_values_conform {σ : Type} [Source σ] {l : Schema.Loader} {document : Document}
    {s t : Session} {c : Configuration} {before after : List Descriptor} {d : Descriptor}
    (hload : (l.load document).2 = none)
    (hdialog : configureFields {} (l.load document).1.fields s = (none, c, t))
    (hd : (l.load document).1.fields = before ++ d :: after)
    (count : Nat) (start : Record) (source : σ) :
    ∃ c₁ s₁ r s₂, configureFields {} before s = (none, c₁, s₁) ∧
      (resolve d.name d).run s₁ = (.ok r, s₂) ∧ IsWay d r.path r.leaf ∧
      Ledger.get? c.kinds d.name = some r.leaf.kind ∧
      (∀ record ∈ (fillTimes (Pool.recipe c.pool) count ⟨none, start, c.pool, source⟩).1,
        ConformsAt record d.name r.leaf r.odds) ∧
      ∀ record ∈ returned (Pool.recipe c.pool) count ⟨none, start, c.pool, source⟩,
        ConformsAt record d.name r.leaf r.odds := by
  have hnodup := Schema.names_nodup_of_load hload
  rw [Schema.Loader.names, hd, List.map_append, List.map_cons, List.nodup_append,
    List.nodup_cons] at hnodup
  rw [hd] at hdialog
  obtain ⟨c₁, s₁, r, s₂, hb, hr, hp, hk⟩ := configureFields_settled hnodup.2.1.1 hdialog
  have hs := resolve_ok hr
  refine ⟨c₁, s₁, r, s₂, hb, hr, hs.way, hk, ?_⟩
  have hname : d.name ∈ (Pool.recipe c.pool).map Prod.fst := by
    rw [Pool.recipe, List.map_map]
    exact List.mem_map.mpr ⟨d.name, mem_keys_of_get? hp, rfl⟩
  have hsuits := suits_of_resolution hs
  exact ⟨fillTimes_conforms own_of_mem_recipe hname ⟨r.generator, hp, hsuits⟩,
    returned_conforms own_of_mem_recipe hname ⟨r.generator, hp, hsuits⟩⟩

/-- A record of a number that may be null and of one of two symbols. -/
def sampleDocument : Document :=
  .dict [(.text "type", .text "record"), (.text "name", .text "Sample"),
    (.text "fields", .list [
      .dict [(.text "name", .text "size"), (.text "type", .list [.text "null", .text "int"])],
      .dict [(.text "name", .text "side"), (.text "type", .dict [(.text "type", .text "enum"),
        (.text "name", .text "Side"),
        (.text "symbols", .list [.text "LEFT", .text "RIGHT"])])]])]

theorem filled_values_conform_sample :
    ∃ c t d, Ledger.get? c.kinds "size" = some .int ∧
      configureFields {} (Schema.Loader.load {} sampleDocument).1.fields
        ⟨["0.5", "incr from 3", "rand"], []⟩ = (none, c, t) ∧
      (∀ record ∈ (fillTimes (Pool.recipe c.pool) 3 ⟨none, [], c.pool, ({} : Script)⟩).1,
        ConformsAt record "size" d [0.5]) ∧
      ∀ record ∈ returned (Pool.recipe c.pool) 3 ⟨none, [], c.pool, ({} : Script)⟩,
        ConformsAt record "size" d [0.5] := by
  have hload : (Schema.Loader.load {} sampleDocument).2 = none := rfl
  obtain ⟨c₁, s₁, r, s₂, hb, hr, -, hk, hall⟩ := filled_values_conform hload
    (s := ⟨["0.5", "incr from 3", "rand"], []⟩) rfl (show _ = [] ++ _ :: _ from rfl) 3 []
    ({} : Script)
  cases hb
  cases hr
  exact ⟨_, _, _, hk, rfl, hall⟩

end RecordForge
