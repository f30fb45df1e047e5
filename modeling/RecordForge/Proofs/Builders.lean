import RecordForge.Proofs.Columns
import RecordForge.Proofs.Fillings

/-!
# What a builder has noted

A builder is given sources and the generators of fields, and recipes are built from it in between. A recipe is a
copy of what has been noted by then: the builder goes on, and the recipe stays.

* `Ledger.last?_eq_some_iff`: the last entry under a key.
* `Step.noted?`, `Bench.given?`: what a step has a builder note; `noted`, `Bench.given`: what a program does.
* `builder_step`, `builder_run`: what a builder is after a step and after a program.
* `recipes_run`: a recipe stays until another one gets its name. `run_builds`: steps of builders leave everything
  but builders and recipes.
* `BuiltFrom`: a recipe is what has been noted; `built_from`.
* `own_source_of_build`: a recipe that is built without a source has one of its own.
* `Replaced`: a generator has been noted, but there was another one for its field afterwards.
* **`built_from_history`**: the recipe that is built after a program, and what can be done to it later.
-/

namespace RecordForge

/-! ## First and last entries -/

namespace Ledger

variable {κ α : Type} [DecidableEq κ] {k : κ} {v : α}

/-- What is read is the first entry under a key. -/
theorem get?_eq_some_iff {l : Ledger κ α} : get? l k = some v ↔
    ∃ before after, l = before ++ (k, v) :: after ∧ k ∉ before.map Prod.fst := by
  constructor
  · induction l with
    | nil => exact nofun
    | cons e rest ih =>
      obtain ⟨k', v'⟩ := e
      rw [get?]
      split
      · rename_i hk
        rintro ⟨⟩
        exact ⟨[], rest, by rw [hk]; rfl, List.not_mem_nil⟩
      · rename_i hk
        intro h
        obtain ⟨before, after, rfl, hbefore⟩ := ih h
        exact ⟨(k', v') :: before, after, rfl, by simpa [Ne.symm hk] using hbefore⟩
  · rintro ⟨before, after, rfl, hbefore⟩
    rw [get?_append, get?_eq_none hbefore, Option.none_or, get?, if_pos rfl]

/-- In a ledger with distinct keys, what stands under a key is the entry that is there. -/
theorem mem_iff_get? {l : Ledger κ α} (h : (keys l).Nodup) : (k, v) ∈ l ↔ get? l k = some v := by
  rw [get?_eq_some_iff]
  constructor
  · intro hmem
    obtain ⟨before, after, rfl⟩ := List.append_of_mem hmem
    refine ⟨before, after, rfl, fun hk => ?_⟩
    rw [keys, List.map_append, List.map_cons] at h
    exact (List.nodup_append.mp h).2.2 k hk k List.mem_cons_self rfl
  · rintro ⟨before, after, rfl, -⟩
    exact List.mem_append_right _ List.mem_cons_self

/-- The last entry under a key has no other one under this key behind it. -/
theorem last?_eq_some_iff {entries : List (κ × α)} : last? entries k = some v ↔
    ∃ before after, entries = before ++ (k, v) :: after ∧ k ∉ after.map Prod.fst := by
  rw [last?, get?_eq_some_iff]
  constructor
  · rintro ⟨before, after, hentries, hbefore⟩
    refine ⟨after.reverse, before.reverse, ?_, by simpa using hbefore⟩
    rw [← List.reverse_reverse entries, hentries]
    simp
  · rintro ⟨before, after, rfl, hafter⟩
    exact ⟨after.reverse, before.reverse, by simp, by simpa using hafter⟩

end Ledger

/-! ## What a builder notes -/

/-- The field and the generator that a step has a builder note. -/
def Step.noted? (builder : String) : Step → Option (String × String)
  | .giveAction name field generator => if name = builder then some (field, generator) else none
  | _ => none

/-- The fields with their generators that a program has a builder note, in order. -/
def noted (builder : String) (program : List Step) : List (String × String) :=
  program.filterMap (Step.noted? builder)

/-- A step gives a recipe its name. -/
def Step.Names (label : String) : Step → Prop
  | .build _ recipe => recipe = label
  | .compose recipe _ _ => recipe = label
  | _ => False

/-- A step is one of a builder. -/
def Step.Builds : Step → Prop
  | .giveSource .. => True
  | .giveAction .. => True
  | .build .. => True
  | _ => False

variable {σ : Type} [Source σ]

namespace Bench

/-- The source that a step has a builder note: one that is on the bench. -/
def given? (b : Bench σ) (builder : String) : Step → Option String
  | .giveSource name source =>
    if name = builder ∧ (Ledger.get? b.sources source).isSome then some source else none
  | _ => none

/-- The sources that a program has a builder note, in order. -/
def given (b : Bench σ) (builder : String) : List Step → List String
  | [] => []
  | x :: rest => (b.given? builder x).toList ++ (b.step x).1.given builder rest

end Bench

/-- What a builder is after it has noted sources and generators. -/
def Builder.after (n : Builder) (given : List String) (noted : List (String × String)) : Builder :=
  ⟨given.getLast?.or n.source, Ledger.setAll n.actions noted⟩

theorem Builder.after_append (n : Builder) (given given' : List String) (noted noted' : List (String × String)) :
    (n.after given noted).after given' noted' = n.after (given ++ given') (noted ++ noted') := by
  simp only [after, List.getLast?_append, Option.or_assoc, Ledger.setAll, List.foldl_append]

theorem builders_fillRecord (b : Bench σ) (recipe : BoundRecipe) (record : String) :
    (b.fillRecord recipe record).1.builders = b.builders := by
  obtain ⟨sources, owned, h⟩ := Bench.exists_putSourceOf _ recipe _
  exact (congrArg Bench.builders h).trans rfl

section Steps

variable (builder : String) {label : String}

/-- **What a builder is after a step**: it has noted what the step has it note. -/
theorem builder_step (b : Bench σ) (x : Step) :
    (b.step x).1.builder builder =
      (b.builder builder).after (b.given? builder x).toList (x.noted? builder).toList := by
  cases x with
  | giveSource name source =>
    simp only [Bench.step, Bench.given?, Step.noted?]
    split
    · rename_i hsource
      by_cases hname : name = builder
      · subst hname
        simp [Bench.builder, Ledger.get?_set, hsource, Builder.after, Builder.withSource, Ledger.setAll]
      · simp [Bench.builder, Ledger.get?_set, hname, Builder.after, Ledger.setAll]
    · rename_i hsource
      rw [if_neg fun h => hsource h.2]
      rfl
  | giveAction name field generator =>
    simp only [Bench.step, Bench.given?, Step.noted?]
    by_cases hname : name = builder
    · subst hname
      simp [Bench.builder, Ledger.get?_set, Builder.after, Builder.withAction, Ledger.setAll]
    · simp [Bench.builder, Ledger.get?_set, hname, Builder.after, Ledger.setAll]
  | fill recipe record =>
    simp only [Bench.step, Bench.builder, builders_fillRecord]
    rfl
  | next generator source =>
    simp only [Bench.step, Bench.builder]
    split <;> rfl
  | inspect generator =>
    simp only [Bench.step]
    split <;> rfl
  | _ => rfl

/-- **What a builder is after a program.** -/
theorem builder_run : ∀ (program : List Step) (b : Bench σ),
    (b.run program).1.builder builder = (b.builder builder).after (b.given builder program) (noted builder program)
  | [], b => rfl
  | x :: rest, b => by
    have hnoted : noted builder (x :: rest) = (x.noted? builder).toList ++ noted builder rest := by
      rw [noted, List.filterMap_cons]
      cases x.noted? builder <;> rfl
    rw [Bench.given, hnoted, ← Builder.after_append, ← builder_step]
    exact builder_run rest (b.step x).1

/-- A recipe stays under its name unless the step gives the name to another one. -/
theorem recipes_step {x : Step} (hx : ¬ x.Names label) (b : Bench σ) :
    Ledger.get? (b.step x).1.recipes label = Ledger.get? b.recipes label := by
  cases x with
  | giveSource name source =>
    simp only [Bench.step]
    split <;> rfl
  | build name recipe => exact (Ledger.get?_set ..).trans (if_neg hx)
  | compose recipe actions source => exact (Ledger.get?_set ..).trans (if_neg hx)
  | fill recipe record => exact congrArg (Ledger.get? · label) (recipes_fillRecord b _ record)
  | next generator source =>
    simp only [Bench.step]
    split <;> rfl
  | inspect generator =>
    simp only [Bench.step]
    split <;> rfl
  | giveAction => rfl

theorem recipes_run : ∀ {program : List Step}, (∀ x ∈ program, ¬ x.Names label) → ∀ b : Bench σ,
    Ledger.get? (b.run program).1.recipes label = Ledger.get? b.recipes label
  | [], _, _ => rfl
  | _ :: _, h, b => by
    obtain ⟨hx, hrest⟩ := List.forall_mem_cons.mp h
    exact (recipes_run hrest _).trans (recipes_step hx b)

/-- A step of a builder leaves everything but builders and recipes. -/
theorem step_builds {x : Step} (hx : x.Builds) (b : Bench σ) :
    ∃ builders recipes, (b.step x).1 = { b with builders, recipes } := by
  cases x with
  | giveSource name source =>
    simp only [Bench.step]
    split <;> exact ⟨_, _, rfl⟩
  | giveAction => exact ⟨_, _, rfl⟩
  | build => exact ⟨_, _, rfl⟩
  | _ => exact hx.elim

theorem run_builds : ∀ {program : List Step}, (∀ x ∈ program, x.Builds) → ∀ b : Bench σ,
    ∃ builders recipes, (b.run program).1 = { b with builders, recipes }
  | [], _, b => ⟨b.builders, b.recipes, rfl⟩
  | x :: _, h, b => by
    obtain ⟨hx, hrest⟩ := List.forall_mem_cons.mp h
    obtain ⟨builders, recipes, hstep⟩ := step_builds hx b
    obtain ⟨builders', recipes', hrun⟩ := run_builds hrest (b.step x).1
    exact ⟨builders', recipes', hrun.trans (by rw [hstep])⟩

end Steps

/-! ## The recipe of what has been noted -/

/-- A recipe is what has been noted: the fields in the order in which they were first noted, each once, with the
generator that was noted for it last; and the source that was given last. -/
structure BuiltFrom (noted : List (String × String)) (given : List String) (m : BoundRecipe) : Prop where
  fields : m.recipe.map Prod.fst = firsts (noted.map Prod.fst)
  once : (m.recipe.map Prod.fst).Nodup
  bound : ∀ field generator, (field, generator) ∈ m.recipe ↔
    ∃ before after, noted = before ++ (field, generator) :: after ∧ field ∉ after.map Prod.fst
  source : m.source = given.getLast?

/-- **A new builder builds what it has noted.** -/
theorem built_from (noted : List (String × String)) (given : List String) (own : Nat) :
    BuiltFrom noted given ((({} : Builder).after given noted).build own) := by
  have hfields : Ledger.keys (Ledger.setAll [] noted) = firsts (noted.map Prod.fst) := by
    rw [Ledger.keys_setAll]
    simp [Ledger.keys]
  have honce : (Ledger.keys (Ledger.setAll [] noted)).Nodup := by
    rw [hfields]
    exact nodup_firsts _
  refine ⟨hfields, honce, fun field generator => ?_, Option.or_none⟩
  rw [← Ledger.last?_eq_some_iff]
  refine (Ledger.mem_iff_get? honce).trans ?_
  rw [Ledger.get?_setAll, Ledger.get?, Option.or_none]

/-! ## Sources of recipes -/

theorem mem_set_self {κ α : Type} [DecidableEq κ] (k : κ) (v : α) : ∀ l : Ledger κ α, (k, v) ∈ Ledger.set l k v
  | [] => List.mem_singleton_self _
  | (k', v') :: rest => by
    rw [Ledger.set]
    split
    · exact List.mem_cons_self
    · exact List.mem_cons_of_mem _ (mem_set_self k v rest)

theorem mem_of_get? {κ α : Type} [DecidableEq κ] {l : Ledger κ α} {k : κ} {v : α} (h : Ledger.get? l k = some v) :
    (k, v) ∈ l := by
  obtain ⟨before, after, rfl, -⟩ := Ledger.get?_eq_some_iff.mp h
  exact List.mem_append_right _ List.mem_cons_self

/-- The next number is above those of all recipes. -/
theorem lt_fresh {τ : Type} {b : Bench τ} {e : String × BoundRecipe} (h : e ∈ b.recipes) : e.2.own < b.fresh := by
  have hle : ∀ l : Ledger String BoundRecipe, e ∈ l → e.2.own + 1 ≤ (l.map fun e => e.2.own + 1).foldr max 0 := by
    intro l
    induction l with
    | nil => exact fun h => absurd h List.not_mem_nil
    | cons first rest ih =>
      intro h
      rw [List.map_cons, List.foldr_cons]
      rcases List.mem_cons.mp h with rfl | h
      · exact Nat.le_max_left _ _
      · exact Nat.le_trans (ih h) (Nat.le_max_right _ _)
  exact hle b.recipes h

/-- Numbers that were given are not given again. -/
theorem fresh_step (b : Bench σ) (x : Step) : b.fresh ≤ (b.step x).1.fresh := by
  have hset (label : String) (r : BoundRecipe) (hr : r.own = b.fresh) :
      b.fresh ≤ { b with recipes := Ledger.set b.recipes label r }.fresh := by
    have hlt : r.own < { b with recipes := Ledger.set b.recipes label r }.fresh :=
      lt_fresh (e := (label, r)) (mem_set_self label r _)
    omega
  cases x with
  | build name recipe => exact hset recipe _ rfl
  | compose recipe actions source => exact hset recipe _ rfl
  | fill recipe record =>
    have hrecipes := recipes_fillRecord b ((Ledger.get? b.recipes recipe).getD ⟨[], none, b.fresh⟩) record
    exact Nat.le_of_eq (congrArg (fun l => (l.map fun e => e.2.own + 1).foldr max 0) hrecipes.symm)
  | giveSource name source =>
    simp only [Bench.step]
    split <;> exact Nat.le_refl _
  | next generator source =>
    simp only [Bench.step]
    split <;> exact Nat.le_refl _
  | inspect generator =>
    simp only [Bench.step]
    split <;> exact Nat.le_refl _
  | giveAction => exact Nat.le_refl _

/-- A step draws from no source whose number is still to be given. -/
theorem owned_step (b : Bench σ) (x : Step) {n : Nat} (hn : b.fresh ≤ n) : (b.step x).1.owned n = b.owned n := by
  cases x with
  | fill recipe record =>
    cases hr : Ledger.get? b.recipes recipe with
    | some r =>
      have hown : n ≠ r.own := (Nat.ne_of_lt (Nat.lt_of_lt_of_le (lt_fresh (mem_of_get? hr)) hn)).symm
      rw [step_fill hr, Bench.fillRecord, Bench.putSourceOf]
      split
      · rfl
      · exact if_neg hown
    | none =>
      -- no recipe, so nothing is drawn
      have hfill : b.step (.fill recipe record) = b.fillRecord ⟨[], none, b.fresh⟩ record := by rw [Bench.step, hr]; rfl
      rw [hfill]
      show (if n = b.fresh then b.owned b.fresh else b.owned n) = b.owned n
      split
      · rename_i he
        rw [he]
      · rfl
  | giveSource name source =>
    simp only [Bench.step]
    split <;> rfl
  | next generator source =>
    simp only [Bench.step]
    split <;> rfl
  | inspect generator =>
    simp only [Bench.step]
    split <;> rfl
  | _ => rfl

/-- Nor does a program. -/
theorem owned_run {n : Nat} : ∀ (program : List Step) (b : Bench σ),
    (b.run program).1.fresh ≤ n → b.fresh ≤ n ∧ (b.run program).1.owned n = b.owned n
  | [], _, h => ⟨h, rfl⟩
  | x :: rest, b, h => by
    obtain ⟨hn, howned⟩ := owned_run rest (b.step x).1 h
    have hfresh := Nat.le_trans (fresh_step b x) hn
    exact ⟨hfresh, howned.trans (owned_step b x hfresh)⟩

/-- **A recipe that is built without a source has one of its own**: nothing was drawn from it, and no other recipe
draws from it. -/
theorem own_source_of_build (b : Bench σ) (program : List Step) {builder : String}
    (hnone : ((b.run program).1.builder builder).source = none) (label : String) :
    ∃ m built, (b.run program).1.step (.build builder label) = (built, .fields (m.recipe.map Prod.fst)) ∧
      built.sourceOf m = b.owned m.own ∧
      ∀ other r, other ≠ label → Ledger.get? built.recipes other = some r → r.own ≠ m.own := by
  refine ⟨((b.run program).1.builder builder).build (b.run program).1.fresh, _, rfl, ?_, fun other r hne hr => ?_⟩
  · have howned := (owned_run program b (Nat.le_refl _)).2
    rw [Builder.build, hnone]
    exact howned
  · have hthere : Ledger.get? (b.run program).1.recipes other = some r :=
      ((Ledger.get?_set ..).trans (if_neg hne.symm)).symm.trans hr
    exact Nat.ne_of_lt (lt_fresh (mem_of_get? hthere))

/-- A generator has been noted, and for every field that it was noted for there was another note afterwards. -/
def Replaced (noted : List (String × String)) (generator : String) : Prop :=
  generator ∈ noted.map Prod.snd ∧
    ∀ before field after, noted = before ++ (field, generator) :: after → field ∈ after.map Prod.fst

/-- A recipe does not have a generator that was replaced. -/
theorem BuiltFrom.not_mem {noted : List (String × String)} {given : List String} {m : BoundRecipe}
    (h : BuiltFrom noted given m) {generator : String} (hreplaced : Replaced noted generator) :
    generator ∉ m.recipe.map Prod.snd := by
  intro hmem
  obtain ⟨⟨field, _⟩, hentry, rfl⟩ := List.mem_map.mp hmem
  obtain ⟨before, after, hnoted, hlast⟩ := (h.bound _ _).mp hentry
  exact hlast (hreplaced.2 before field after hnoted)

/-- The calls that fill a record are calls of the generators of the recipe. -/
theorem generator_of_mem_fillCalls {c : Call} : ∀ {recipe : Recipe} {p : Pool} {s : σ},
    c ∈ fillCalls recipe p s → c.generator ∈ recipe.map Prod.snd
  | [], _, _, h => absurd h List.not_mem_nil
  | (field, name) :: rest, p, s, h => by
    rw [fillCalls] at h
    rcases List.mem_cons.mp h with rfl | h
    · exact List.mem_cons_self
    · rcases hx : p.next name s with ⟨e | v, p', s'⟩ <;> rw [hx] at h
      · exact absurd h List.not_mem_nil
      · exact List.mem_cons_of_mem _ (generator_of_mem_fillCalls h)

/-- **A generator that a recipe does not have is not called when a record is filled by it**, and stays as it
is. -/
theorem spared_fill {b : Bench σ} {label : String} {m : BoundRecipe} (hm : Ledger.get? b.recipes label = some m)
    {generator : String} (hgenerator : generator ∉ m.recipe.map Prod.snd) (record : String) :
    (∀ c ∈ b.calls (.fill label record), c.generator ≠ generator) ∧
      Ledger.get? (b.step (.fill label record)).1.pool generator = Ledger.get? b.pool generator := by
  constructor
  · intro c hc
    rw [Bench.calls, hm] at hc
    rintro rfl
    exact hgenerator (generator_of_mem_fillCalls hc)
  · rw [step_fill hm, pool_fillRecord]
    exact fill_spares hgenerator _ _ _

/-- **A recipe is fixed by the history of its builder.** Take a bench on which a builder is new, and any program:
the builder may note sources, fields and generators in any order, a field more than once, and build recipes in
between; so may other builders, and records may be filled. The recipe that is built then has the fields in the
order in which they were first noted, each once, with the generator that was noted for it last before, and the
source that was given last before. Whatever is done later, it is still this recipe that records are filled by, as
long as its name is not given to another one. Steps of builders leave the generators, the sources and the records
as they are. A generator that was replaced before is not called when a record is filled by the recipe, and stays
as it is. -/
theorem built_from_history {b : Bench σ} {builder : String} (hnew : Ledger.get? b.builders builder = none)
    (program : List Step) (label : String) :
    ∃ m built, (b.run program).1.step (.build builder label) = (built, .fields (m.recipe.map Prod.fst)) ∧
      BuiltFrom (noted builder program) (b.given builder program) m ∧
      (∀ later, (∀ x ∈ later, ¬ x.Names label) →
        ∀ record, (built.run later).1.step (.fill label record) = (built.run later).1.fillRecord m record) ∧
      (∀ later, (∀ x ∈ later, x.Builds) →
        ∃ builders recipes, (built.run later).1 = { (b.run program).1 with builders, recipes }) ∧
      ∀ generator, Replaced (noted builder program) generator → ∀ later, (∀ x ∈ later, ¬ x.Names label) →
        ∀ record, (∀ c ∈ (built.run later).1.calls (.fill label record), c.generator ≠ generator) ∧
          Ledger.get? ((built.run later).1.step (.fill label record)).1.pool generator =
            Ledger.get? (built.run later).1.pool generator := by
  have hbuilder : b.builder builder = {} := by rw [Bench.builder, hnew]; rfl
  obtain ⟨m, hm⟩ : ∃ m, m = ((b.run program).1.builder builder).build (b.run program).1.fresh := ⟨_, rfl⟩
  have hbuilt : BuiltFrom (noted builder program) (b.given builder program) m := by
    rw [hm, builder_run, hbuilder]
    exact built_from _ _ _
  obtain ⟨built, hstep⟩ : ∃ built, (b.run program).1.step (.build builder label) =
      (built, .fields (m.recipe.map Prod.fst)) := ⟨_, by rw [hm]; rfl⟩
  have hthere : Ledger.get? built.recipes label = some m := by
    have hrecipes := congrArg (fun x => Ledger.get? x.1.recipes label) hstep
    refine hrecipes.symm.trans ?_
    rw [hm]
    exact (Ledger.get?_set ..).trans (if_pos rfl)
  have hlater : ∀ later, (∀ x ∈ later, ¬ x.Names label) →
      Ledger.get? (built.run later).1.recipes label = some m :=
    fun later hlater => (recipes_run hlater built).trans hthere
  refine ⟨m, built, hstep, hbuilt, fun later h => step_fill (hlater later h), fun later h => ?_,
    fun generator hreplaced later h => spared_fill (hlater later h) (hbuilt.not_mem hreplaced)⟩
  have hsteps : ∀ x ∈ Step.build builder label :: later, x.Builds := List.forall_mem_cons.mpr ⟨trivial, h⟩
  obtain ⟨builders, recipes, hall⟩ := run_builds hsteps (b.run program).1
  refine ⟨builders, recipes, ?_⟩
  rw [← hall, Bench.run, hstep]

/-- A bench with three generators and two sources. -/
def threeBench : Bench Script where
  pool := [("count", .counter 0 1 .int), ("side", .pick [.text "L", .text "R"]),
    ("turn", .rotate [.text "a", .text "b"] 0)]
  sources := [("s", {}), ("t", {})]
  spare := {}

/-- Two builders that note generators for one field, and one of them another generator for it later, after a
recipe has been built. The last source is not there. -/
def twoBuilders : List Step :=
  [.giveAction "p" "x" "count", .giveSource "p" "s", .giveAction "p" "y" "turn", .build "p" "first",
    .giveAction "q" "x" "count", .giveSource "p" "t", .giveAction "p" "x" "side", .giveSource "p" "u"]

/-- The field keeps its place and gets its new generator; the counter stays as it is, although the builder goes on
with it and another recipe has it. -/
theorem built_from_history_three : ∃ (m : BoundRecipe) (built : Bench Script),
    (threeBench.run twoBuilders).1.step (.build "p" "second") = (built, .fields ["x", "y"]) ∧
      ("x", "side") ∈ m.recipe ∧ ("y", "turn") ∈ m.recipe ∧ m.source = some "t" ∧
      Ledger.get? ((built.run [.giveAction "p" "y" "count", .build "p" "third", .fill "first" "r"]).1.step
        (.fill "second" "r")).1.pool "count" = some (.counter 1 1 .int) := by
  have hnew : Ledger.get? threeBench.builders "p" = none := rfl
  obtain ⟨m, built, hstep, hbuilt, -, -, hspared⟩ := built_from_history hnew twoBuilders "second"
  have hnoted : noted "p" twoBuilders = [("x", "count"), ("y", "turn"), ("x", "side")] := rfl
  have hreplaced : Replaced (noted "p" twoBuilders) "count" := by
    rw [hnoted]
    refine ⟨List.mem_cons_self, fun before field after h => ?_⟩
    match before with
    | [] =>
      obtain ⟨rfl, rfl⟩ : "x" = field ∧ [("y", "turn"), ("x", "side")] = after := by simpa using h
      decide
    | [_] => simp at h
    | [_, _] => simp at h
    | _ :: _ :: _ :: _ => simp at h
  have hcount := (hspared "count" hreplaced
    [.giveAction "p" "y" "count", .build "p" "third", .fill "first" "r"]
    (List.forall_mem_cons.mpr ⟨nofun, List.forall_mem_cons.mpr ⟨by simp [Step.Names], by simp [Step.Names]⟩⟩) "r").2
  rw [hbuilt.fields, hnoted] at hstep
  have hbench : built = ((threeBench.run twoBuilders).1.step (.build "p" "second")).1 :=
    (congrArg Prod.fst hstep).symm
  refine ⟨m, built, hstep, (hbuilt.bound _ _).mpr ⟨[("x", "count"), ("y", "turn")], [], hnoted, nofun⟩,
    (hbuilt.bound _ _).mpr ⟨[("x", "count")], [("x", "side")], hnoted, by decide⟩, hbuilt.source, hcount.trans ?_⟩
  rw [hbench]
  rfl

end RecordForge
