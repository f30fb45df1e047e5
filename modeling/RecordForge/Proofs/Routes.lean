import RecordForge.Proofs.Answers
import RecordForge.Proofs.Conformity
import RecordForge.Proofs.Interview

/-!
# The way from a field to what it is generated as

A field that is a union is generated as one of its members, which may be a union again. The answers decide
which way that goes: for each union the probability of null, if it offers null, and the member, if there
are several. `Leads` says where some answers lead to, and which of them are left; the dialog is not
part of it.

* `Leads`: the way through the tree of a field.
* `Generates`: a member is generated itself, under the strategy that is answered for it.
* `Generator.peel`: the probabilities of null around a generator.
* `configure_leads`, `configure_of_leads`: a field is configured exactly if its way ends at such a member.
* `configure_unsupported`: how the way ends when the field cannot be generated.
* **`configure_follows_answers`**: what the configuration of a field comes to.
-/

namespace RecordForge

/-! ## Trees -/

mutual

/-- What passes from the members of a field to the field is true of every field. -/
theorem Descriptor.induct {P : Descriptor → Prop} (step : ∀ d : Descriptor, (∀ m ∈ d.members, P m) → P d) :
    ∀ d : Descriptor, P d
  | ⟨_, _, _, members, _⟩ => step _ (Descriptor.inductMembers step members)

theorem Descriptor.inductMembers {P : Descriptor → Prop}
    (step : ∀ d : Descriptor, (∀ m ∈ d.members, P m) → P d) :
    ∀ members : List Descriptor, ∀ m ∈ members, P m
  | [], _, h => absurd h List.not_mem_nil
  | d :: rest, m, h => by
    rcases List.mem_cons.mp h with heq | hrest
    · exact heq ▸ Descriptor.induct step d
    · exact Descriptor.inductMembers step rest m hrest

end

/-- The probabilities of null around a generator, the outermost first, and the generator within. -/
def Generator.peel : Generator → List Float × Generator
  | .nullable p inner => (p :: inner.peel.1, inner.peel.2)
  | g => ([], g)

/-- A failure because something cannot be generated at all. -/
def Failure.IsUnsupported : Failure → Prop
  | .unsupported _ => True
  | .emptyUnion _ => True
  | _ => False

namespace Dialog

/-! ## Ways -/

/-- How likely a union is null by some answers. One that does not offer null is not asked about, and never
null. -/
def OddsAnswered (nullable : Bool) (answers : List String) (p : Float) (rest : List String) : Prop :=
  if nullable then Answered judgeProbability answers p rest else p = 0.0 ∧ rest = answers

/-- The member that a union is generated as by some answers. A single one is not asked about. -/
def MemberAnswered (choices : List Descriptor) (answers : List String) (m : Descriptor)
    (rest : List String) : Prop :=
  choices = [m] ∧ rest = answers ∨
    2 ≤ choices.length ∧ Answered (judgeMember choices) answers m rest

/-- The answers lead from a field down to a member, with some positive probabilities of null on the way,
the outermost first; the answers after these are left. -/
inductive Leads : Descriptor → List String → List Float → Descriptor → List String → Prop
  | here (d : Descriptor) (answers : List String) : Leads d answers [] d answers
  | member {d m leaf : Descriptor} {answers rest₁ rest₂ rest : List String} {p : Float}
      {odds : List Float} (hkind : d.kind = .union) (hodds : OddsAnswered d.nullable answers p rest₁)
      (hmember : MemberAnswered d.choices rest₁ m rest₂) (h : Leads m rest₂ odds leaf rest) :
      Leads d answers (if p > 0.0 then p :: odds else odds) leaf rest

/-- A member is generated itself, under the strategy that is answered for it. -/
def Generates (name : String) (leaf : Descriptor) (answers : List String) (strategy : Strategy)
    (core : Generator) (rest : List String) : Prop :=
  ∃ g, Command.grammar? leaf.kind = some g ∧
    Answered (judgeStrategy g name leaf) answers strategy rest ∧ strategy.generator leaf = .ok core

/-- A way cannot go on: its end is of a kind that is not generated, or a union without a member other than
null. -/
def Stuck (name : String) (leaf : Descriptor) (answers : List String) (e : Failure) : Prop :=
  e = .unsupported leaf.kind ∧ leaf.kind ≠ .union ∧ Command.grammar? leaf.kind = none ∨
    e = .emptyUnion name ∧ leaf.kind = .union ∧ leaf.nonNull = [] ∧
      ∃ p rest, OddsAnswered leaf.nullable answers p rest

/-! ## Questions -/

variable {name : String}

/-- The question how likely a union is null, if it offers null. -/
def askNull (name : String) (nullable : Bool) : Dialog Float :=
  if nullable then askProbability name else pure 0.0

theorem askNull_answered {nullable : Bool} {p : Float} {s t : Session}
    (h : (askNull name nullable).run s = (.ok p, t)) : OddsAnswered nullable s.answers p t.answers := by
  cases nullable with
  | true => exact ask_answered h
  | false =>
    cases h
    exact ⟨rfl, rfl⟩

theorem askNull_of_answered (name : String) {nullable : Bool} {p : Float} {answers rest : List String}
    (h : OddsAnswered nullable answers p rest) (events : List Event) :
    ∃ said, (askNull name nullable).run ⟨answers, events⟩ = (.ok p, ⟨rest, said⟩) := by
  cases nullable with
  | true => exact ask_of_answered _ h events
  | false =>
    obtain ⟨rfl, rfl⟩ := h
    exact ⟨events, rfl⟩

theorem selectMember_answered {choices : List Descriptor} {m : Descriptor} {s t : Session}
    (h : (selectMember name choices).run s = (.ok m, t)) :
    MemberAnswered choices s.answers m t.answers := by
  match choices with
  | [] => cases h
  | [x] =>
    cases h
    exact .inl ⟨rfl, rfl⟩
  | x :: y :: choices => exact .inr ⟨by simp, ask_answered h⟩

theorem selectMember_of_answered (name : String) {choices : List Descriptor} {m : Descriptor}
    {answers rest : List String} (h : MemberAnswered choices answers m rest) (events : List Event) :
    ∃ said, (selectMember name choices).run ⟨answers, events⟩ = (.ok m, ⟨rest, said⟩) := by
  rcases h with ⟨rfl, rfl⟩ | ⟨hseveral, h⟩
  · exact ⟨events, rfl⟩
  · match choices with
    | [] => exact absurd hseveral (by simp)
    | [x] => exact absurd hseveral (by simp)
    | x :: y :: choices => exact ask_of_answered _ h events

/-- A field that is no union is configured by a strategy that is accepted, and a generator under it. -/
theorem configurePlain_answered {d : Descriptor} {g : Generator} {kind : Kind} {s t : Session}
    (h : (configurePlain name d).run s = (.ok (g, kind), t)) :
    (∃ strategy, Generates name d s.answers strategy g t.answers) ∧ kind = d.kind := by
  unfold configurePlain at h
  obtain ⟨strategy, u, hask, h⟩ := run_bind_ok.mp h
  unfold askStrategy at hask
  cases hgrammar : Command.grammar? d.kind with
  | none =>
    rw [hgrammar] at hask
    cases hask
  | some grammar =>
    rw [hgrammar] at hask
    cases hbuilt : strategy.generator d with
    | error e =>
      rw [hbuilt] at h
      cases h
    | ok core =>
      rw [hbuilt] at h
      cases h
      exact ⟨⟨strategy, grammar, hgrammar, ask_answered hask, hbuilt⟩, rfl⟩

theorem configurePlain_of_generates {d : Descriptor} {answers rest : List String} {strategy : Strategy}
    {core : Generator} (h : Generates name d answers strategy core rest) (events : List Event) :
    ∃ said, (configurePlain name d).run ⟨answers, events⟩ = (.ok (core, d.kind), ⟨rest, said⟩) := by
  obtain ⟨grammar, hgrammar, hanswered, hbuilt⟩ := h
  obtain ⟨said, hask⟩ := ask_of_answered (strategyPrompt d.kind name) hanswered events
  refine ⟨said, run_bind_ok.mpr ⟨strategy, ⟨rest, said⟩, ?_, ?_⟩⟩
  · unfold askStrategy
    rw [hgrammar]
    exact hask
  · rw [hbuilt]
    rfl

/-! ## Unions -/

/-- A field that is generated as one of some members is generated like this member. -/
theorem configureMember_of_mem {selected : Descriptor} : ∀ {members : List Descriptor},
    selected ∈ members → configureMember name selected members = configure name selected
  | m :: rest, h => by
    rw [configureMember]
    split
    · rename_i heq
      rw [heq]
    · rename_i hne
      exact configureMember_of_mem ((List.mem_cons.mp h).resolve_left fun heq => hne heq.symm)

theorem configure_plain {d : Descriptor} (hd : d.kind ≠ .union) :
    configure name d = configurePlain name d := by
  obtain ⟨n, kind, symbols, members, nullable⟩ := d
  cases kind with
  | union => exact absurd rfl hd
  | _ => rfl

/-- A union is configured as the member that is selected, with its null around it. -/
theorem run_configure_union {d : Descriptor} (hd : d.kind = .union) (s : Session) :
    (configure name d).run s =
      (askNull name d.nullable >>= fun p => selectMember name d.choices >>= fun m =>
        configure name m >>= fun r => pure (withNull p r.1, r.2)).run s := by
  obtain ⟨n, kind, symbols, members, nullable⟩ := d
  cases hd
  have hchain : configure name ⟨n, .union, symbols, members, nullable⟩ =
      askNull name nullable >>= fun p =>
        selectMember name (Descriptor.choices ⟨n, .union, symbols, members, nullable⟩) >>= fun m =>
          configureMember name m members >>= fun r => pure (withNull p r.1, r.2) := by
    rw [configure]
    cases nullable <;> rfl
  rw [hchain, run_bind, run_bind]
  rcases (askNull name nullable).run s with ⟨e | p, t⟩
  · rfl
  · dsimp only
    rw [run_bind, run_bind]
    rcases hm : (selectMember name (Descriptor.choices ⟨n, .union, symbols, members, nullable⟩)).run t
      with ⟨e | m, u⟩
    · rfl
    · have hmem : m ∈ members := Descriptor.mem_members_of_mem_choices (selectMember_ok hm)
      dsimp only
      rw [configureMember_of_mem hmem]

/-- The null of one union is the outermost of those on the way. -/
theorem withNull_foldr (p : Float) (odds : List Float) (core : Generator) :
    withNull p (odds.foldr .nullable core) =
      (if p > 0.0 then p :: odds else odds).foldr .nullable core := by
  unfold withNull
  split <;> rfl

/-- **A field that is configured leads to a member that is generated**, with the nulls of the way around
it. -/
theorem configure_leads : ∀ (d : Descriptor) {g : Generator} {kind : Kind} {s t : Session},
    (configure name d).run s = (.ok (g, kind), t) → ∃ odds leaf mid strategy core,
      Leads d s.answers odds leaf mid ∧ Generates name leaf mid strategy core t.answers ∧
        g = odds.foldr .nullable core ∧ kind = leaf.kind := by
  intro d
  induction d using Descriptor.induct with
  | step d ih =>
    intro g kind s t h
    by_cases hd : d.kind = .union
    · rw [run_configure_union hd] at h
      obtain ⟨p, s₁, hp, h⟩ := run_bind_ok.mp h
      obtain ⟨m, s₂, hm, h⟩ := run_bind_ok.mp h
      obtain ⟨⟨g', kind'⟩, s₃, hr, h⟩ := run_bind_ok.mp h
      cases h
      obtain ⟨odds, leaf, mid, strategy, core, hleads, hgenerates, rfl, rfl⟩ :=
        ih m (Descriptor.mem_members_of_mem_choices (selectMember_ok hm)) hr
      exact ⟨_, leaf, mid, strategy, core,
        .member hd (askNull_answered hp) (selectMember_answered hm) hleads, hgenerates,
        withNull_foldr p odds core, rfl⟩
    · rw [configure_plain hd] at h
      obtain ⟨⟨strategy, hgenerates⟩, rfl⟩ := configurePlain_answered h
      exact ⟨[], d, s.answers, strategy, g, .here d _, hgenerates, rfl, rfl⟩

/-- **A way to a member that is generated is gone by the dialog.** -/
theorem configure_of_leads {d leaf : Descriptor} {answers mid rest : List String} {odds : List Float}
    {strategy : Strategy} {core : Generator} (h : Leads d answers odds leaf mid)
    (hgenerates : Generates name leaf mid strategy core rest) (events : List Event) :
    ∃ said, (configure name d).run ⟨answers, events⟩ =
      (.ok (odds.foldr .nullable core, leaf.kind), ⟨rest, said⟩) := by
  induction h generalizing events with
  | here d answers =>
    have hd : d.kind ≠ .union := by
      intro hd
      obtain ⟨g, hg, -⟩ := hgenerates
      rw [hd] at hg
      cases hg
    rw [configure_plain hd]
    exact configurePlain_of_generates hgenerates events
  | @member d m leaf answers rest₁ rest₂ mid p odds hkind hodds hmember h ih =>
    obtain ⟨said₁, hp⟩ := askNull_of_answered name hodds events
    obtain ⟨said₂, hm⟩ := selectMember_of_answered name hmember said₁
    obtain ⟨said, hr⟩ := ih hgenerates said₂
    refine ⟨said, ?_⟩
    rw [run_configure_union hkind, ← withNull_foldr]
    refine run_bind_ok.mpr ⟨p, _, hp, ?_⟩
    refine run_bind_ok.mpr ⟨m, _, hm, ?_⟩
    exact run_bind_ok.mpr ⟨_, _, hr, rfl⟩

/-! ## Ways that cannot go on -/

theorem judgeStrategy_abort {g : Command.Grammar} {d : Descriptor} {line : String} {e : Failure}
    (h : judgeStrategy g name d line = .abort e) : ¬e.IsUnsupported := by
  unfold judgeStrategy at h
  split at h
  · cases h
  · split at h
    · cases h
    · cases h
    · cases h
      exact id

theorem judgeProbability_ne_abort (line : String) (e : Failure) : judgeProbability line ≠ .abort e := by
  unfold judgeProbability
  split
  · nofun
  · split <;> nofun

theorem judgeMember_ne_abort (choices : List Descriptor) (line : String) (e : Failure) :
    judgeMember choices line ≠ .abort e := by
  unfold judgeMember
  split
  · nofun
  · split <;> nofun

theorem askNull_error {nullable : Bool} {e : Failure} {s t : Session}
    (h : (askNull name nullable).run s = (.error e, t)) : ¬e.IsUnsupported := by
  cases nullable with
  | false => cases h
  | true =>
    rcases ask_error h with ⟨rfl, -⟩ | ⟨line, hline⟩
    · exact id
    · exact absurd hline (judgeProbability_ne_abort line e)

/-- There is a member to select unless all members are null. -/
theorem selectMember_error {d : Descriptor} {e : Failure} {s t : Session}
    (h : (selectMember name d.choices).run s = (.error e, t)) (he : e.IsUnsupported) :
    e = .emptyUnion name ∧ d.nonNull = [] := by
  unfold selectMember at h
  split at h
  · rename_i hchoices
    cases h
    refine ⟨rfl, List.eq_nil_iff_forall_not_mem.mpr fun m hm => ?_⟩
    have hchoice : m ∈ d.choices := mem_firsts.mpr hm
    rw [hchoices] at hchoice
    cases hchoice
  · cases h
  · rcases ask_error h with ⟨rfl, -⟩ | ⟨line, hline⟩
    · exact he.elim
    · exact absurd hline (judgeMember_ne_abort _ line e)

/-- What two stamps lack to be the bounds of days is a defect. -/
theorem ofStamps_error {lower upper scale : Int} {kind : Kind} {e : Failure}
    (h : Generator.ofStamps lower upper scale kind = .error e) : ∃ x, e = .defect x := by
  unfold Generator.ofStamps at h
  split at h
  · cases h
    exact ⟨_, rfl⟩
  · cases h
    exact ⟨_, rfl⟩
  · dsimp only at h
    split at h
    · cases h
      exact ⟨_, rfl⟩
    · cases h
  · cases h
    exact ⟨_, rfl⟩

theorem integerGenerator_error {strategy : Strategy} {kind : Kind} {e : Failure}
    (h : strategy.integerGenerator kind = .error e) : ∃ x, e = .defect x := by
  unfold Strategy.integerGenerator at h
  split at h
  · cases h
  · unfold Generator.ofIntegers at h
    split at h
    · cases h
    · exact ofStamps_error h
    · cases h
  · split at h
    · cases h
    · cases h
      exact ⟨_, rfl⟩
  · cases h
    exact ⟨_, rfl⟩

/-- A field whose kind has a grammar can be generated, or its strategy has a defect. -/
theorem generator_error {strategy : Strategy} {d : Descriptor} {g : Command.Grammar} {e : Failure}
    (hg : Command.grammar? d.kind = some g) (h : strategy.generator d = .error e) :
    ∃ x, e = .defect x := by
  unfold Strategy.generator at h
  cases hd : d.kind with
  | int | long =>
    rw [hd] at h
    exact integerGenerator_error h
  | float | double =>
    rw [hd] at h
    dsimp only at h
    unfold Strategy.decimalGenerator at h
    split at h
    · cases h
    · cases h
      exact ⟨_, rfl⟩
  | string =>
    rw [hd] at h
    dsimp only at h
    unfold Strategy.textGenerator at h
    split at h
    · cases h
    · cases h
    · cases h
      exact ⟨_, rfl⟩
  | enum =>
    rw [hd] at h
    cases h
  | _ =>
    rw [hd] at hg
    cases hg

theorem configurePlain_error {d : Descriptor} {e : Failure} {s t : Session}
    (h : (configurePlain name d).run s = (.error e, t)) (he : e.IsUnsupported) :
    e = .unsupported d.kind ∧ Command.grammar? d.kind = none := by
  unfold configurePlain at h
  cases hg : Command.grammar? d.kind with
  | none =>
    rcases run_bind_error.mp h with hask | ⟨strategy, u, hask, -⟩
    · unfold askStrategy at hask
      rw [hg] at hask
      cases hask
      exact ⟨rfl, rfl⟩
    · unfold askStrategy at hask
      rw [hg] at hask
      cases hask
  | some g =>
    rcases run_bind_error.mp h with hask | ⟨strategy, u, -, hbuilt⟩
    · unfold askStrategy at hask
      rw [hg] at hask
      rcases ask_error hask with ⟨rfl, -⟩ | ⟨line, hline⟩
      · exact he.elim
      · exact absurd he (judgeStrategy_abort hline)
    · split at hbuilt
      · cases hbuilt
      · rename_i e' hfail
        cases hbuilt
        obtain ⟨x, rfl⟩ := generator_error hg hfail
        exact he.elim

/-- **A field that cannot be generated leads to a member that cannot be**, or to a union without any. -/
theorem configure_unsupported : ∀ (d : Descriptor) {e : Failure} {s t : Session},
    (configure name d).run s = (.error e, t) → e.IsUnsupported → ∃ odds leaf mid,
      Leads d s.answers odds leaf mid ∧ Stuck name leaf mid e := by
  intro d
  induction d using Descriptor.induct with
  | step d ih =>
    intro e s t h he
    by_cases hd : d.kind = .union
    · rw [run_configure_union hd] at h
      rcases run_bind_error.mp h with hp | ⟨p, s₁, hp, h⟩
      · exact absurd he (askNull_error hp)
      have hodds : OddsAnswered d.nullable s.answers p s₁.answers := askNull_answered hp
      rcases run_bind_error.mp h with hm | ⟨m, s₂, hm, h⟩
      · obtain ⟨rfl, hnone⟩ := selectMember_error hm he
        exact ⟨[], d, s.answers, .here d _, .inr ⟨rfl, hd, hnone, p, _, hodds⟩⟩
      rcases run_bind_error.mp h with hr | ⟨r, s₃, -, hdone⟩
      · obtain ⟨odds, leaf, mid, hleads, hstuck⟩ :=
          ih m (Descriptor.mem_members_of_mem_choices (selectMember_ok hm)) hr he
        exact ⟨_, leaf, mid, .member hd hodds (selectMember_answered hm) hleads, hstuck⟩
      · cases hdone
    · rw [configure_plain hd] at h
      obtain ⟨rfl, hg⟩ := configurePlain_error h he
      exact ⟨[], d, s.answers, .here d _, .inl ⟨rfl, hd, hg⟩⟩

/-- **A way that cannot go on ends the dialog.** -/
theorem configure_of_stuck {d leaf : Descriptor} {answers mid : List String} {odds : List Float}
    {e : Failure} (h : Leads d answers odds leaf mid) (hstuck : Stuck name leaf mid e)
    (events : List Event) : e.IsUnsupported ∧ ∃ t, (configure name d).run ⟨answers, events⟩ = (.error e, t) := by
  induction h generalizing events with
  | here d answers =>
    rcases hstuck with ⟨rfl, hd, hg⟩ | ⟨rfl, hd, hnone, p, rest, hodds⟩
    · refine ⟨trivial, ⟨answers, events⟩, ?_⟩
      rw [configure_plain hd]
      refine run_bind_error.mpr (.inl ?_)
      unfold askStrategy
      rw [hg]
      rfl
    · obtain ⟨said, hp⟩ := askNull_of_answered name hodds events
      have hchoices : d.choices = [] := by
        rw [Descriptor.choices, hnone]
        rfl
      refine ⟨trivial, ⟨rest, said⟩, ?_⟩
      rw [run_configure_union hd]
      refine run_bind_error.mpr (.inr ⟨p, _, hp, ?_⟩)
      rw [hchoices]
      exact run_bind_error.mpr (.inl rfl)
  | @member d m leaf answers rest₁ rest₂ mid p odds hkind hodds hmember h ih =>
    obtain ⟨said₁, hp⟩ := askNull_of_answered name hodds events
    obtain ⟨said₂, hm⟩ := selectMember_of_answered name hmember said₁
    obtain ⟨he, t, hr⟩ := ih hstuck said₂
    refine ⟨he, t, ?_⟩
    rw [run_configure_union hkind]
    refine run_bind_error.mpr (.inr ⟨p, _, hp, ?_⟩)
    refine run_bind_error.mpr (.inr ⟨m, _, hm, ?_⟩)
    exact run_bind_error.mpr (.inl hr)

/-! ## Peeling -/

/-- A generator that is built under a strategy has no null around it. -/
theorem Generates.peel {leaf : Descriptor} {answers rest : List String} {strategy : Strategy}
    {core : Generator} (h : Generates name leaf answers strategy core rest) : core.peel = ([], core) := by
  obtain ⟨g, hg, ⟨refused, line, -, hline, -⟩, hbuilt⟩ := h
  have hvalid := Command.valid_of_readStrategy hg (readStrategy_of_accept hline)
  have hsuits : core.Suits leaf [] := generator_suits hvalid hbuilt
  cases core with
  | nullable p inner => exact absurd hsuits.1 List.not_mem_nil
  | _ => rfl

theorem peel_foldr {core : Generator} (h : core.peel = ([], core)) : ∀ odds : List Float,
    (odds.foldr .nullable core : Generator).peel = (odds, core)
  | [] => h
  | p :: odds => by
    rw [List.foldr_cons, Generator.peel, peel_foldr h odds]

theorem OddsAnswered.le_one {nullable : Bool} {answers rest : List String} {p : Float}
    (h : OddsAnswered nullable answers p rest) : p ≤ 1.0 := by
  unfold OddsAnswered at h
  split at h
  · obtain ⟨refused, line, -, hline, -⟩ := h
    exact (judgeProbability_ok hline).2
  · rw [h.1]
    decide

theorem foldr_peel : ∀ g : Generator, g.peel.1.foldr .nullable g.peel.2 = g
  | .nullable p inner => by
    rw [Generator.peel, List.foldr_cons, foldr_peel inner]
  | .range .. => rfl
  | .counter .. => rfl
  | .days .. => rfl
  | .pick _ => rfl
  | .rotate .. => rfl
  | .decimal .. => rfl
  | .text .. => rfl

/-- The probabilities on a way are positive, and at most one. -/
theorem Leads.odds_range {d leaf : Descriptor} {answers rest : List String} {odds : List Float}
    (h : Leads d answers odds leaf rest) : ∀ p ∈ odds, 0.0 < p ∧ p ≤ 1.0 := by
  induction h with
  | here d answers => exact fun p hp => absurd hp List.not_mem_nil
  | member hkind hodds hmember h ih =>
    intro x hx
    split at hx
    · rename_i hp
      rcases List.mem_cons.mp hx with rfl | hx
      · exact ⟨hp, hodds.le_one⟩
      · exact ih x hx
    · exact ih x hx

end Dialog

/-! ## Fields -/

namespace Dialog

/-- The kinds that are generated. -/
def generatedKinds : List Kind := [.int, .long, .float, .double, .string, .enum]

theorem mem_generatedKinds {kind : Kind} {g : Command.Grammar} (h : Command.grammar? kind = some g) :
    kind ∈ generatedKinds := by
  cases kind <;> first | decide | cases h

/-- The dialog about a field is a talk, so it ends. -/
theorem configure_uses (name : String) (d : Descriptor) (s : Session) :
    ∃ used said result rest, (configure name d).run s = (result, ⟨rest, s.events ++ said⟩) ∧
      s.answers = used ++ rest ∧
      (said.countP Talk.isPrompt = used.length ∨
        said.countP Talk.isPrompt = used.length + 1 ∧ rest = [] ∧
          ∃ prompt, result = .error (.exhausted prompt)) := by
  have htalk : configure name d = (Resolution.outcome <$> inquire name d).run := by
    rw [configure_eq_map_resolve, Talk.run_map, run_inquire]
  rw [htalk]
  exact Talk.run_uses s.answers _ s.events

/-- **The configuration of a field follows the answers down its tree.** It ends, after no more than one
question for each answer that it uses up and one after them. It succeeds exactly if the answers lead to a
member that is generated itself, under a strategy that is answered for it: the generator is that of the
member, with the positive probabilities of null that were answered on the way around it, the outermost
first, and the kind is the member's. It fails because something cannot be generated exactly if the answers
lead to a member of a kind that is not generated, or to a union without a member other than null. What was
settled before stays, and nothing is added unless it succeeds. -/
theorem configure_follows_answers (name : String) (d : Descriptor) (s : Session) :
    (∃ used said result rest, (configure name d).run s = (result, ⟨rest, s.events ++ said⟩) ∧
      s.answers = used ++ rest ∧
      (said.countP Talk.isPrompt = used.length ∨
        said.countP Talk.isPrompt = used.length + 1 ∧ rest = [] ∧
          ∃ prompt, result = .error (.exhausted prompt))) ∧
    (∀ g kind rest, (∃ said, (configure name d).run s = (.ok (g, kind), ⟨rest, said⟩)) ↔
      ∃ odds leaf mid strategy core, Leads d s.answers odds leaf mid ∧
        Generates name leaf mid strategy core rest ∧ g.peel = (odds, core) ∧
        (∀ p ∈ odds, 0.0 < p ∧ p ≤ 1.0) ∧ kind = leaf.kind ∧ kind ∈ generatedKinds) ∧
    (∀ e, e.IsUnsupported ∧ (∃ t, (configure name d).run s = (.error e, t)) ↔
      ∃ odds leaf mid, Leads d s.answers odds leaf mid ∧ Stuck name leaf mid e) ∧
    ∀ c : Configuration,
      (∀ g kind t, (configure d.name d).run s = (.ok (g, kind), t) → ∀ other,
        Ledger.get? (configureFields c [d] s).2.1.kinds other =
          if d.name = other then some kind else Ledger.get? c.kinds other) ∧
      ∀ e t, (configure d.name d).run s = (.error e, t) → configureFields c [d] s = (some e, c, t) := by
  refine ⟨configure_uses name d s, fun g kind rest => ⟨?_, ?_⟩, fun e => ⟨?_, ?_⟩,
    fun c => ⟨fun g kind t h other => ?_, fun e t h => ?_⟩⟩
  · rintro ⟨said, h⟩
    obtain ⟨odds, leaf, mid, strategy, core, hleads, hgenerates, rfl, rfl⟩ := configure_leads d h
    obtain ⟨grammar, hgrammar, -⟩ := id hgenerates
    exact ⟨odds, leaf, mid, strategy, core, hleads, hgenerates, peel_foldr hgenerates.peel odds,
      hleads.odds_range, rfl, mem_generatedKinds hgrammar⟩
  · rintro ⟨odds, leaf, mid, strategy, core, hleads, hgenerates, hpeel, -, rfl, -⟩
    have hg : odds.foldr .nullable core = g := by
      rw [← foldr_peel g, hpeel]
    rw [← hg]
    exact configure_of_leads hleads hgenerates s.events
  · rintro ⟨he, t, h⟩
    exact configure_unsupported d h he
  · rintro ⟨odds, leaf, mid, hleads, hstuck⟩
    exact configure_of_stuck hleads hstuck s.events
  · rw [configureFields, h]
    exact Ledger.get?_set c.kinds d.name other kind
  · rw [configureFields, h]

/-- A seat with a number or a row, either of which may be missing. -/
def seatField : Descriptor :=
  .union "seat" [.plain "seat" .null,
    .union "seat" [.plain "seat" .int, .plain "seat" .null, .plain "seat" .string], .plain "seat" .long]

/-- Answers for a seat, some of which are refused. -/
def seatAnswers : Session :=
  { answers := ["1.5", "0.25", "union", "0.5", "help", "INT", "incr from 3", "later"] }

/-- The answers lead to the number of the seat, through both unions. -/
theorem configure_follows_answers_seat : ∃ leaf mid strategy rest,
    Leads seatField seatAnswers.answers [0.25, 0.5] leaf mid ∧
      Generates "seat" leaf mid strategy (.counter 3 1 .int) rest ∧ leaf.kind = .int := by
  have hrun : ((configure "seat" seatField).run seatAnswers).1.toOption =
      some (.nullable 0.25 (.nullable 0.5 (.counter 3 1 .int)), .int) := by decide +kernel
  rcases h : (configure "seat" seatField).run seatAnswers with ⟨e | ⟨g, kind⟩, rest, said⟩
  · rw [h] at hrun
    cases hrun
  · rw [h] at hrun
    cases hrun
    obtain ⟨odds, leaf, mid, strategy, core, hleads, hgenerates, hpeel, -, hkind, -⟩ :=
      ((configure_follows_answers "seat" seatField seatAnswers).2.1 _ _ rest).mp ⟨said, h⟩
    cases hpeel
    exact ⟨leaf, mid, strategy, rest, hleads, hgenerates, hkind.symm⟩

end Dialog

end RecordForge
