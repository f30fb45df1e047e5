import RecordForge.Recipe.Basic

/-!
# A bench of builders

Recipes are made by builders: a builder notes a source and which generator fills which field, and the
recipe built from it is what it has noted by then. A recipe that is built before a source was given draws
from one of its own. On a bench everything has a name, so that builders, recipes, records, generators and
sources can be shared.

* `Builder`: what a builder has noted.
* `Bench`: everything by name.
* `Step`, `Bench.step`: what can be done on a bench, and what it answers.
-/

namespace RecordForge

/-- What a builder has noted. -/
structure Builder where
  /-- The name of the source, if one was given. -/
  source : Option String := none
  /-- The generators by the fields that they fill. -/
  actions : Ledger String String := []

/-- A recipe with its source. -/
structure BoundRecipe where
  recipe : Recipe
  /-- The name of the source, if it was given one. -/
  source : Option String
  /-- The number of its own source, which it draws from without another. -/
  own : Nat

namespace Builder

/-- Note a source. -/
def withSource (b : Builder) (source : String) : Builder := { b with source := some source }

/-- Note the generator of a field. A field that is there keeps its place. -/
def withAction (b : Builder) (field generator : String) : Builder :=
  { b with actions := Ledger.set b.actions field generator }

/-- The recipe of what has been noted, with a source of its own. -/
def build (b : Builder) (own : Nat) : BoundRecipe := ⟨b.actions, b.source, own⟩

end Builder

/-- Everything by name. -/
structure Bench (σ : Type) where
  pool : Pool
  sources : Ledger String σ
  /-- The source of a name that there is none of. -/
  spare : σ
  /-- The sources that recipes have of their own, by number. -/
  owned : Nat → σ := fun _ => spare
  builders : Ledger String Builder := []
  recipes : Ledger String BoundRecipe := []
  records : Ledger String Record := []

/-- What can be done on a bench. -/
inductive Step where
  /-- Give a builder a source. -/
  | giveSource (builder source : String)
  /-- Give a builder the generator of a field. -/
  | giveAction (builder field generator : String)
  /-- Build a recipe. -/
  | build (builder recipe : String)
  /-- Write a recipe down. -/
  | compose (recipe : String) (actions : Recipe) (source : String)
  /-- Fill a record. -/
  | fill (recipe record : String)
  /-- Take a value from a generator. -/
  | next (generator source : String)
  /-- Look at a generator. -/
  | inspect (generator : String)

/-- What a step answers. -/
inductive Answer where
  | done
  | fields (names : List String)
  | record (r : Record) (failure : Option Failure)
  | value (v : Value)
  | generator (g : Generator)
  | failure (e : Failure)

namespace Bench

variable {σ : Type}

/-- The builder of a name, a new one if there is none yet. -/
def builder (b : Bench σ) (name : String) : Builder := (Ledger.get? b.builders name).getD {}

/-- The source of a name, the spare one if there is none. -/
def source (b : Bench σ) (name : String) : σ := (Ledger.get? b.sources name).getD b.spare

/-- The source that a recipe draws from. -/
def sourceOf (b : Bench σ) (r : BoundRecipe) : σ :=
  match r.source with
  | some name => b.source name
  | none => b.owned r.own

/-- The bench with a source in the place of another. -/
def putSource (b : Bench σ) (name : String) (s : σ) : Bench σ :=
  { b with sources := Ledger.set b.sources name s }

/-- The bench with a source in the place of the one that a recipe draws from. -/
def putSourceOf (b : Bench σ) (r : BoundRecipe) (s : σ) : Bench σ :=
  match r.source with
  | some name => b.putSource name s
  | none => { b with owned := fun n => if n = r.own then s else b.owned n }

/-- Putting back the source of a recipe leaves everything but the sources. -/
theorem exists_putSourceOf (b : Bench σ) (r : BoundRecipe) (s : σ) :
    ∃ sources owned, b.putSourceOf r s = { b with sources, owned } := by
  unfold putSourceOf
  split <;> exact ⟨_, _, rfl⟩

/-- The number of the next recipe, above those of all others. -/
def fresh (b : Bench σ) : Nat := (b.recipes.map fun e => e.2.own + 1).foldr max 0

variable [Source σ]

/-- Fill a record by a recipe. -/
def fillRecord (b : Bench σ) (recipe : BoundRecipe) (record : String) : Bench σ × Answer :=
  let before := (Ledger.get? b.records record).getD []
  let f := RecordForge.fill recipe.recipe before b.pool (b.sourceOf recipe)
  let b := { b with pool := f.pool, records := Ledger.set b.records record f.record }
  (b.putSourceOf recipe f.source, .record f.record f.failure)

/-- What a step does and answers. -/
def step (b : Bench σ) : Step → Bench σ × Answer
  | .giveSource name source =>
    if (Ledger.get? b.sources source).isSome then
      let builders := Ledger.set b.builders name ((b.builder name).withSource source)
      ({ b with builders := builders }, .done)
    else (b, .failure (.defect .noSource))
  | .giveAction name field generator =>
    let builders := Ledger.set b.builders name ((b.builder name).withAction field generator)
    ({ b with builders := builders }, .done)
  | .build name recipe =>
    let r := (b.builder name).build b.fresh
    ({ b with recipes := Ledger.set b.recipes recipe r }, .fields (r.recipe.map Prod.fst))
  | .compose recipe actions source =>
    ({ b with recipes := Ledger.set b.recipes recipe ⟨actions, some source, b.fresh⟩ },
      .fields (actions.map Prod.fst))
  | .fill recipe record =>
    b.fillRecord ((Ledger.get? b.recipes recipe).getD ⟨[], none, b.fresh⟩) record
  | .next generator source =>
    let (v, pool, s) := b.pool.next generator (b.source source)
    let b := { b with pool := pool }.putSource source s
    match v with
    | .ok v => (b, .value v)
    | .error e => (b, .failure e)
  | .inspect generator =>
    match Ledger.get? b.pool generator with
    | some g => (b, .generator g)
    | none => (b, .failure (.defect .noSuchItem))

end Bench

end RecordForge
