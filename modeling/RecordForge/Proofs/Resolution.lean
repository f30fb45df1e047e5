import RecordForge.Dialog.Union
import RecordForge.Proofs.Strategies

/-!
# How a field is resolved

A dialog about a field goes down from union to member until it reaches a field that is generated
itself. `configure` keeps only what is needed later, the generator and the kind; `resolve` is the same
dialog, and also says which way it went.

* `Resolution`: the unions on the way, what was answered for them, and the field reached.
* **`configure_eq_map_resolve`**: `configure` is `resolve` with the way forgotten.
* `resolve_ok`: the field reached is generated under a strategy that it can follow.
-/

namespace RecordForge

/-- What is written for an answer that has its question repeated. -/
def Verdict.reply? {α : Type} : Verdict α → Option Event
  | .explain text => some (.notice text)
  | .reject text => some (.diagnostic text)
  | _ => none

namespace Dialog

/-! ## Resolutions -/

/-- One union on the way to a field, with the probability of null answered for it, if it was asked. -/
structure Stage where
  union : Descriptor
  odds : Option Float

/-- Which way a dialog about a field went. -/
structure Resolution where
  /-- The unions gone through, the outermost first. -/
  path : List Stage
  /-- The member reached, which is generated itself. -/
  leaf : Descriptor
  strategy : Strategy
  /-- The generator of the leaf under the strategy. -/
  core : Generator

/-- The generator with the null of one union. -/
def Stage.wrap (t : Stage) (g : Generator) : Generator :=
  match t.odds with
  | some p => withNull p g
  | none => g

/-- The generator of a field: the leaf's, with the nulls of the unions around it. -/
def Resolution.generator (r : Resolution) : Generator := r.path.foldr Stage.wrap r.core

/-- The probabilities answered on the way, the outermost first. -/
def Resolution.odds (r : Resolution) : List Float := r.path.filterMap Stage.odds

/-- The dialog about a field that is no union. -/
def resolvePlain (name : String) (d : Descriptor) : Dialog Resolution := do
  let strategy ← askStrategy name d
  match strategy.generator d with
  | .ok core => return ⟨[], d, strategy, core⟩
  | .error e => throw e

/-- Ask for the probability of null, if the union offers it. -/
def askOdds (name : String) (nullable : Bool) : Dialog (Option Float) :=
  if nullable then some <$> askProbability name else pure none

mutual

/-- The dialog about a field, with the way that it goes. -/
def resolve (name : String) : Descriptor → Dialog Resolution
  | ⟨n, .union, symbols, members, nullable⟩ => do
    let odds ← askOdds name nullable
    let selected ← selectMember name (Descriptor.choices ⟨n, .union, symbols, members, nullable⟩)
    let r ← resolveMember name selected members
    return { r with path := ⟨⟨n, .union, symbols, members, nullable⟩, odds⟩ :: r.path }
  | d => resolvePlain name d

/-- The dialog about a field that is generated as one of some members. -/
def resolveMember (name : String) (selected : Descriptor) : List Descriptor → Dialog Resolution
  | [] => throw (.emptyUnion name)
  | m :: rest => if m = selected then resolve name m else resolveMember name selected rest

end

/-- What `configure` keeps of a resolution. -/
def Resolution.outcome (r : Resolution) : Generator × Kind := (r.generator, r.leaf.kind)

theorem withNull_zero (g : Generator) : withNull 0.0 g = g := if_neg (by decide)

theorem configurePlain_eq (name : String) (d : Descriptor) :
    configurePlain name d = Resolution.outcome <$> resolvePlain name d := by
  unfold configurePlain resolvePlain
  rw [map_bind]
  congr 1
  funext strategy
  cases strategy.generator d <;> rfl

mutual

/-- **`configure` is `resolve` with the way forgotten.** -/
theorem configure_eq_map_resolve (name : String) : ∀ d : Descriptor,
    configure name d = Resolution.outcome <$> resolve name d
  | ⟨n, kind, symbols, members, nullable⟩ => by
    have hm : ∀ selected, configureMember name selected members =
        Resolution.outcome <$> resolveMember name selected members :=
      fun selected => configureMember_eq_map_resolveMember name selected members
    cases kind with
    | union =>
      simp only [configure, resolve, hm]
      cases nullable with
      | false => simp [askOdds, Resolution.outcome, Resolution.generator, Stage.wrap, withNull_zero]
      | true => simp [askOdds, Resolution.outcome, Resolution.generator, Stage.wrap]
    | _ => simp only [configure, resolve, configurePlain_eq]

theorem configureMember_eq_map_resolveMember (name : String) (selected : Descriptor) :
    ∀ members : List Descriptor, configureMember name selected members =
      Resolution.outcome <$> resolveMember name selected members
  | [] => rfl
  | m :: rest => by
    simp only [configureMember, resolveMember]
    split
    · exact configure_eq_map_resolve name m
    · exact configureMember_eq_map_resolveMember name selected rest

end

/-! ## What a question accepts -/

/-- The answer that a question accepts comes after answers that have it repeated. -/
theorem askFrom_ok {α : Type} {prompt : String} {judge : String → Verdict α} {a : α} {t : Session} :
    ∀ {answers : List String} {events : List Event},
      askFrom prompt judge answers events = (.ok a, t) →
        ∃ refused line, answers = refused ++ line :: t.answers ∧ judge (trimmed line) = .accept a ∧
          ∀ x ∈ refused, (judge (trimmed x)).reply?.isSome
  | [], events, h => by cases h
  | line :: rest, events, h => by
    have again {events : List Event} (hj : (judge (trimmed line)).reply?.isSome)
        (h : askFrom prompt judge rest events = (.ok a, t)) :
        ∃ refused line', line :: rest = refused ++ line' :: t.answers ∧
          judge (trimmed line') = .accept a ∧ ∀ x ∈ refused, (judge (trimmed x)).reply?.isSome := by
      obtain ⟨refused, line', hrest, hacc, hrep⟩ := askFrom_ok h
      refine ⟨line :: refused, line', by rw [hrest]; rfl, hacc, fun x hx => ?_⟩
      rcases List.mem_cons.mp hx with rfl | hx
      · exact hj
      · exact hrep x hx
    simp only [askFrom] at h
    split at h
    · rename_i x hj
      cases h
      exact ⟨[], line, rfl, hj, fun x hx => absurd hx List.not_mem_nil⟩
    · rename_i hj
      exact again (by rw [hj]; rfl) h
    · rename_i hj
      exact again (by rw [hj]; rfl) h
    · cases h

/-- What a question gives was accepted. -/
theorem ask_ok {α : Type} {prompt : String} {judge : String → Verdict α} {a : α} {s t : Session}
    (h : (ask prompt judge).run s = (.ok a, t)) : ∃ line, judge line = .accept a := by
  obtain ⟨_, line, -, hacc, -⟩ := askFrom_ok h
  exact ⟨trimmed line, hacc⟩

/-- An answer that is accepted as a strategy is a command that says so. -/
theorem readStrategy_of_accept {g : Command.Grammar} {name : String} {d : Descriptor} {line : String}
    {strategy : Strategy} (h : judgeStrategy g name d line = .accept strategy) :
    Command.readStrategy g d line = .ok strategy := by
  unfold judgeStrategy at h
  split at h
  · cases h
  · split at h
    · rename_i hread
      cases h
      exact hread
    · cases h
    · cases h

/-- A strategy that is asked for is valid. -/
theorem askStrategy_ok {name : String} {d : Descriptor} {strategy : Strategy} {s t : Session}
    (h : (askStrategy name d).run s = (.ok strategy, t)) : strategy.Valid d := by
  unfold askStrategy at h
  split at h
  · cases h
  · rename_i g hg
    obtain ⟨line, hacc⟩ := ask_ok h
    exact Command.valid_of_readStrategy hg (readStrategy_of_accept hacc)

/-- An answer that is accepted as a probability lies between zero and one. -/
theorem judgeProbability_ok {line : String} {p : Float} (h : judgeProbability line = .accept p) :
    0.0 ≤ p ∧ p ≤ 1.0 := by
  unfold judgeProbability at h
  split at h
  · cases h
  · split at h
    · rename_i hp
      cases h
      exact hp
    · cases h

/-- A probability that is asked for lies between zero and one. -/
theorem askProbability_ok {name : String} {p : Float} {s t : Session}
    (h : (askProbability name).run s = (.ok p, t)) : 0.0 ≤ p ∧ p ≤ 1.0 := by
  obtain ⟨line, hacc⟩ := ask_ok h
  exact judgeProbability_ok hacc

/-- The member that a union is generated as is one of its choices. -/
theorem selectMember_ok {name : String} {choices : List Descriptor} {m : Descriptor} {s t : Session}
    (h : (selectMember name choices).run s = (.ok m, t)) : m ∈ choices := by
  unfold selectMember at h
  split at h
  · cases h
  · cases h; exact List.mem_singleton.mpr rfl
  · obtain ⟨line, hacc⟩ := ask_ok h
    unfold judgeMember at hacc
    split at hacc
    · cases hacc
    · split at hacc
      · rename_i hfind
        cases hacc
        exact List.mem_of_find?_eq_some hfind
      · cases hacc

/-! ## Where a resolution leads -/

/-- A way from a field to a leaf: every stage is the union come to, with a probability exactly when
it offers null, and goes on with one of its choices. -/
def IsWay : Descriptor → List Stage → Descriptor → Prop
  | d, [], leaf => d = leaf ∧ d.kind ≠ .union
  | d, t :: rest, leaf =>
    t.union = d ∧ d.kind = .union ∧ t.odds.isSome = d.nullable ∧
      (∀ p ∈ t.odds, 0.0 ≤ p ∧ p ≤ 1.0) ∧ ∃ m ∈ d.choices, IsWay m rest leaf

/-- What a resolution says about a field is true of it. -/
structure Resolution.Sound (r : Resolution) (d : Descriptor) : Prop where
  way : IsWay d r.path r.leaf
  valid : r.strategy.Valid r.leaf
  built : r.strategy.generator r.leaf = .ok r.core

theorem resolvePlain_ok {name : String} {d : Descriptor} {r : Resolution} {s t : Session}
    (hd : d.kind ≠ .union) (h : (resolvePlain name d).run s = (.ok r, t)) : r.Sound d := by
  obtain ⟨strategy, s₁, hask, h⟩ := run_bind_ok.mp h
  split at h
  · rename_i core hcore
    cases h
    exact ⟨⟨rfl, hd⟩, askStrategy_ok hask, hcore⟩
  · cases h

/-- The odds of a union are asked for exactly when it offers null. -/
theorem askOdds_ok {name : String} {nullable : Bool} {odds : Option Float} {s t : Session}
    (h : (askOdds name nullable).run s = (.ok odds, t)) :
    odds.isSome = nullable ∧ ∀ p ∈ odds, 0.0 ≤ p ∧ p ≤ 1.0 := by
  cases nullable with
  | false => cases h; exact ⟨rfl, nofun⟩
  | true =>
    rw [askOdds, if_pos rfl, map_eq_pure_bind] at h
    obtain ⟨p, s₁, hask, hodds⟩ := run_bind_ok.mp h
    cases hodds
    refine ⟨rfl, fun q hq => ?_⟩
    obtain rfl := Option.some.inj hq
    exact askProbability_ok hask

mutual

/-- **A resolution leads from its field to a leaf, with a strategy that the leaf can follow.** -/
theorem resolve_ok {name : String} {r : Resolution} {s t : Session} : ∀ {d : Descriptor},
    (resolve name d).run s = (.ok r, t) → r.Sound d
  | ⟨n, kind, symbols, members, nullable⟩, h => by
    cases kind with
    | union =>
      simp only [resolve] at h
      obtain ⟨odds, s₁, hodds, h⟩ := run_bind_ok.mp h
      obtain ⟨selected, s₂, hsel, h⟩ := run_bind_ok.mp h
      obtain ⟨r', s₃, hres, h⟩ := run_bind_ok.mp h
      cases h
      obtain ⟨hsome, hrange⟩ := askOdds_ok hodds
      have hs := resolveMember_ok hres
      exact ⟨⟨rfl, rfl, hsome, hrange, selected, selectMember_ok hsel, hs.way⟩, hs.valid, hs.built⟩
    | _ =>
      simp only [resolve] at h
      exact resolvePlain_ok nofun h

theorem resolveMember_ok {name : String} {selected : Descriptor} {r : Resolution} {s t : Session} :
    ∀ {members : List Descriptor},
      (resolveMember name selected members).run s = (.ok r, t) → r.Sound selected
  | [], h => by cases h
  | m :: rest, h => by
    simp only [resolveMember] at h
    split at h
    · rename_i he
      exact he ▸ resolve_ok h
    · exact resolveMember_ok h

end

/-! ## Resolving every field -/

/-- A field that is configured was resolved, and what is kept is the resolution's outcome. -/
theorem configure_ok {name : String} {d : Descriptor} {g : Generator} {kind : Kind} {s t : Session} :
    (configure name d).run s = (.ok (g, kind), t) ↔
      ∃ r, (resolve name d).run s = (.ok r, t) ∧ r.generator = g ∧ r.leaf.kind = kind := by
  rw [configure_eq_map_resolve, map_eq_pure_bind, run_bind_ok]
  constructor
  · rintro ⟨r, u, hr, h⟩
    cases h
    exact ⟨r, hr, rfl, rfl⟩
  · rintro ⟨r, hr, rfl, rfl⟩
    exact ⟨r, t, hr, rfl⟩

/-- A field's turn: it was resolved in the session that the fields before it had left, and its
generator and kind were settled before the fields after it. -/
theorem configureFields_turn {before after : List Descriptor} {d : Descriptor} {c c' : Configuration}
    {s t : Session} (h : configureFields c (before ++ d :: after) s = (none, c', t)) :
    ∃ c₁ s₁ r s₂, configureFields c before s = (none, c₁, s₁) ∧
      (resolve d.name d).run s₁ = (.ok r, s₂) ∧
      configureFields (c₁.settle d.name r.generator r.leaf.kind) after s₂ = (none, c', t) := by
  induction before generalizing c s with
  | nil =>
    simp only [List.nil_append, configureFields] at h
    split at h
    · rename_i g kind s₂ hd
      obtain ⟨r, hr, rfl, rfl⟩ := configure_ok.mp hd
      exact ⟨c, s, r, s₂, rfl, hr, h⟩
    · cases h
  | cons b before ih =>
    simp only [List.cons_append, configureFields] at h ⊢
    split at h
    · exact ih h
    · cases h

/-- Settling fields leaves what was settled under another name. -/
theorem configureFields_frame {name : String} : ∀ {fields : List Descriptor} {c c' : Configuration}
    {s t : Session} {e : Option Failure}, name ∉ fields.map (·.name) →
      configureFields c fields s = (e, c', t) →
        Ledger.get? c'.pool name = Ledger.get? c.pool name ∧
          Ledger.get? c'.kinds name = Ledger.get? c.kinds name
  | [], _, _, _, _, _, _, h => by cases h; exact ⟨rfl, rfl⟩
  | d :: rest, c, c', s, t, e, hn, h => by
    rw [List.map_cons, List.mem_cons, not_or] at hn
    simp only [configureFields] at h
    split at h
    · obtain ⟨hp, hk⟩ := configureFields_frame hn.2 h
      rw [hp, hk]
      simp only [Configuration.settle, Ledger.get?_set, if_neg (Ne.symm hn.1), and_self]
    · cases h; exact ⟨rfl, rfl⟩

/-- **What is settled under a field's name is the outcome of its resolution.** -/
theorem configureFields_settled {before after : List Descriptor} {d : Descriptor}
    {c c' : Configuration} {s t : Session} (hd : d.name ∉ after.map (·.name))
    (h : configureFields c (before ++ d :: after) s = (none, c', t)) :
    ∃ c₁ s₁ r s₂, configureFields c before s = (none, c₁, s₁) ∧
      (resolve d.name d).run s₁ = (.ok r, s₂) ∧
      Ledger.get? c'.pool d.name = some r.generator ∧
      Ledger.get? c'.kinds d.name = some r.leaf.kind := by
  obtain ⟨c₁, s₁, r, s₂, hb, hr, ha⟩ := configureFields_turn h
  obtain ⟨hp, hk⟩ := configureFields_frame hd ha
  refine ⟨c₁, s₁, r, s₂, hb, hr, ?_, ?_⟩
  · rw [hp, Configuration.settle, Ledger.get?_set, if_pos rfl]
  · rw [hk, Configuration.settle, Ledger.get?_set, if_pos rfl]

end Dialog

end RecordForge
