import RecordForge.Proofs.Answers
import RecordForge.Proofs.Descriptors

/-!
# Which member an answer chooses

A union with several members asks for one of them by the name of a type. Two members are told apart as whole
descriptors, but the name of a type says only of which kind a member is.

* `Dialog.Spells`: an answer is the name of a kind.
* `Dialog.IsFirst`: a member is the first one of its kind.
* `Dialog.judgeMember_eq_accept`: which member an answer is taken for.
* `Schema.eq_plain`: a member that is neither an enum nor a union is no more than its kind.
* **`Schema.chosen_of_load`**: which members of a union of a loaded schema can be chosen.
-/

namespace RecordForge

/-- Kinds have different names. -/
theorem Kind.name_inj {a b : Kind} (h : a.name = b.name) : a = b :=
  Option.some.inj ((ofName?_name a).symm.trans ((congrArg ofName? h).trans (ofName?_name b)))

theorem Descriptor.Within.trans {a b c : Descriptor} (h : a.Within b) (h' : b.Within c) : a.Within c := by
  induction h' with
  | refl => exact h
  | member hx _ ih => exact .member hx ih

namespace Dialog

variable {choices : List Descriptor} {m : Descriptor} {line : String}

/-- An answer is the name of a kind, whatever the case of its letters and the blanks around it. -/
def Spells (line : String) (kind : Kind) : Prop :=
  (trimmed line).toList.map Numeral.lowerAscii = kind.name.toList

/-- Among some members the first one of a member's kind is this member. -/
def IsFirst (choices : List Descriptor) (m : Descriptor) : Prop :=
  choices.find? (fun x => x.kind == m.kind) = some m

/-- A member of the kind of each one is the first of this kind. -/
theorem exists_first (h : m ∈ choices) : ∃ x ∈ choices, x.kind = m.kind ∧ IsFirst choices x := by
  have hsome : (choices.find? fun x => x.kind == m.kind).isSome :=
    List.find?_isSome.mpr ⟨m, h, beq_self_eq_true _⟩
  obtain ⟨x, hx⟩ := Option.isSome_iff_exists.mp hsome
  have hfound := List.find?_some hx
  have hkind : x.kind = m.kind := beq_iff_eq.mp hfound
  refine ⟨x, List.mem_of_find?_eq_some hx, hkind, ?_⟩
  rw [IsFirst, hkind]
  exact hx

/-- All members are the first ones of their kinds exactly if no two of them are of one kind. -/
theorem forall_isFirst_iff : (∀ m ∈ choices, IsFirst choices m) ↔
    ∀ a ∈ choices, ∀ b ∈ choices, a.kind = b.kind → a = b := by
  constructor
  · intro h a ha b hb hkind
    have hfirst := h a ha
    rw [IsFirst, hkind] at hfirst
    exact Option.some.inj (hfirst.symm.trans (h b hb))
  · intro h m hm
    obtain ⟨x, hx, hkind, hfirst⟩ := exists_first hm
    exact h x hx m hm hkind ▸ hfirst

/-- An answer to the question for a member of a union chooses one. -/
def Chooses (name : String) (choices : List Descriptor) (line : String) (m : Descriptor) : Prop :=
  ∃ said, (selectMember name choices).run ⟨[line], []⟩ = (.ok m, ⟨[], said⟩)

/-- The name of a kind is one of its spellings. -/
theorem spells_name (kind : Kind) : Spells kind.name kind := by
  cases kind <;> exact rfl

theorem names_eq_true : names (trimmed line) m = true ↔ Spells line m.kind := by
  rw [names, beq_iff_eq, Spells, eq_comm]

/-- An answer that is the name of a kind names the members of this kind. -/
theorem names_of_spells (h : Spells line m.kind) (x : Descriptor) :
    names (trimmed line) x = (x.kind == m.kind) := by
  rw [Bool.eq_iff_iff, names_eq_true, beq_iff_eq]
  constructor
  · intro hx
    exact Kind.name_inj (String.toList_inj.mp (hx.symm.trans h))
  · intro hx
    rwa [hx]

/-- The question for help is no name of a kind. -/
theorem not_spells_help {kind : Kind} (h : trimmed line = "help") : ¬Spells line kind := by
  rw [Spells, h]
  cases kind <;> decide

/-- **An answer is taken for the first member of the kind that it names**, and for no other one. -/
theorem judgeMember_eq_accept :
    judgeMember choices (trimmed line) = .accept m ↔ Spells line m.kind ∧ IsFirst choices m := by
  unfold judgeMember
  by_cases hhelp : trimmed line = "help"
  · rw [if_pos hhelp]
    exact iff_of_false nofun fun h => not_spells_help hhelp h.1
  · rw [if_neg hhelp]
    constructor
    · intro h
      split at h
      · rename_i x hfind
        cases h
        have hspells := names_eq_true.mp (List.find?_some hfind)
        refine ⟨hspells, ?_⟩
        rw [IsFirst, ← hfind]
        exact congrArg (choices.find? ·) (funext fun x => (names_of_spells hspells x).symm)
      · cases h
    · rintro ⟨hspells, hfirst⟩
      have hfind : choices.find? (names (trimmed line)) = some m := by
        rw [← hfirst]
        exact congrArg (choices.find? ·) (funext (names_of_spells hspells))
      rw [hfind]

/-- A union with several members is asked about, and an answer chooses the member that it is taken for. -/
theorem chooses_iff (name : String) (hseveral : 2 ≤ choices.length) :
    Chooses name choices line m ↔ judgeMember choices (trimmed line) = .accept m := by
  have hask : selectMember name choices = askMember name choices := by
    match choices with
    | [] => exact absurd hseveral (by simp)
    | [x] => exact absurd hseveral (by simp)
    | x :: y :: rest => rfl
  rw [Chooses, hask]
  constructor
  · rintro ⟨said, h⟩
    obtain ⟨refused, line', hline, hjudge, -⟩ := ask_answered h
    cases refused with
    | nil =>
      obtain ⟨rfl, -⟩ := List.cons.inj hline
      exact hjudge
    | cons x refused =>
      have hnil := (List.cons.inj hline).2
      exact absurd hnil.symm (List.append_ne_nil_of_right_ne_nil refused (List.cons_ne_nil _ _))
  · intro h
    exact ask_of_answered _ ⟨[], line, rfl, h, fun x hx => absurd hx List.not_mem_nil⟩ []

end Dialog

namespace Schema

open Dialog

/-- A descriptor of a loaded schema that is neither an enum nor a union is no more than its kind. -/
theorem eq_plain {source : Document → Prop} {field : String} {x : Descriptor} (hx : Proper source field x)
    (henum : x.kind ≠ .enum) (hunion : x.kind ≠ .union) : x = .plain field x.kind := by
  have hmembers : x.members = [] := Decidable.byContradiction fun h => hunion (hx.closed h)
  have hnullable : x.nullable = false := by
    rw [Bool.eq_false_iff, ne_eq, hx.nullable, hmembers]
    rintro ⟨y, hy, -⟩
    exact absurd hy List.not_mem_nil
  have hsymbols := hx.bare henum
  have hname := hx.name
  obtain ⟨name, kind, symbols, members, nullable⟩ := x
  subst hname hmembers hnullable hsymbols
  rfl

/-- Whatever lies within a field of a loaded schema is proper. -/
theorem proper_of_load {l : Loader} {d : Document} {f : Descriptor} (h : (l.load d).2 = none)
    (hf : f ∈ (l.load d).1.fields) : ∃ source, ∀ m, m.Within f → Proper source f.name m := by
  obtain ⟨-, entries, hentries, -⟩ := names_of_load h
  rw [load_of_recordFields hentries] at h hf
  obtain ⟨before, entry, after, type, -, -, -, hproper⟩ :=
    ((Sound.opened d).readFields (Prod.ext rfl h)).fields f hf
  exact ⟨_, hproper⟩

/-- **Which members of a union can be chosen.** Take a union at any depth of a field of a loaded schema, with
several distinct members other than null. An answer chooses a member exactly if it is the name of its kind and
the member is the first one of this kind. So there is an answer for a member exactly if it is the first one of
its kind; every member is, unless it is an enum or a union. There is an answer for every member exactly if no
two of them are of one kind. -/
theorem chosen_of_load {l : Loader} {d : Document} (h : (l.load d).2 = none) {f u : Descriptor}
    (hf : f ∈ (l.load d).1.fields) (hu : u.Within f) (hseveral : 2 ≤ u.choices.length) (name : String) :
    (∀ line m, Chooses name u.choices line m ↔ Spells line m.kind ∧ IsFirst u.choices m) ∧
    (∀ m, (∃ line, Chooses name u.choices line m) ↔ IsFirst u.choices m) ∧
    (∀ m ∈ u.choices, m.kind ≠ .enum → m.kind ≠ .union → IsFirst u.choices m) ∧
    ((∀ m ∈ u.choices, ∃ line, Chooses name u.choices line m) ↔
      ∀ a ∈ u.choices, ∀ b ∈ u.choices, a.kind = b.kind → a = b) := by
  have hchooses (line : String) (m : Descriptor) :
      Chooses name u.choices line m ↔ Spells line m.kind ∧ IsFirst u.choices m :=
    (chooses_iff name hseveral).trans judgeMember_eq_accept
  have hexists (m : Descriptor) : (∃ line, Chooses name u.choices line m) ↔ IsFirst u.choices m :=
    ⟨fun ⟨line, hline⟩ => ((hchooses line m).mp hline).2,
      fun hfirst => ⟨m.kind.name, (hchooses _ m).mpr ⟨spells_name m.kind, hfirst⟩⟩⟩
  refine ⟨hchooses, hexists, fun m hm henum hunion => ?_, ?_⟩
  · -- the first member of the kind of this one is equal to it
    obtain ⟨x, hx, hkind, hfirst⟩ := exists_first hm
    obtain ⟨source, hproper⟩ := proper_of_load h hf
    have hwithin {y : Descriptor} (hy : y ∈ u.choices) : Proper source f.name y :=
      hproper y (.trans (.member (Descriptor.mem_members_of_mem_choices hy) (.refl y)) hu)
    rw [eq_plain (hwithin hm) henum hunion, ← hkind,
      ← eq_plain (hwithin hx) (hkind ▸ henum) (hkind ▸ hunion)]
    exact hfirst
  · simp only [hexists]
    exact forall_isFirst_iff

/-- A record of one field, a union of two enums and a number. -/
def seatDocument : Document :=
  Loader.just [.dict [(.text "name", .text "seat"), (.text "type", .list [
    .dict [(.text "type", .text "enum"), (.text "name", .text "Row"), (.text "symbols", .list [.text "A"])],
    .text "long",
    .dict [(.text "type", .text "enum"), (.text "name", .text "Side"),
      (.text "symbols", .list [.text "LEFT", .text "RIGHT"])]])]]

/-- The two members other than the second enum are chosen by their names, and it by no answer. -/
theorem chosen_of_load_seat : ∃ row number side,
    (Loader.load {} seatDocument).1.fields = [.union "seat" [row, number, side]] ∧
      Chooses "seat" [row, number, side] "Enum" row ∧ Chooses "seat" [row, number, side] " LONG" number ∧
      ∀ line, ¬Chooses "seat" [row, number, side] line side := by
  refine ⟨_, _, _, rfl, ?_⟩
  obtain ⟨hchooses, hexists, -⟩ := chosen_of_load (l := {}) (d := seatDocument) rfl
    (List.mem_singleton_self _) (.refl _) (by decide) "seat"
  exact ⟨(hchooses _ _).mpr ⟨rfl, rfl⟩, (hchooses _ _).mpr ⟨rfl, rfl⟩,
    fun line hline => absurd ((hexists _).mp ⟨line, hline⟩) (by unfold IsFirst; decide)⟩

end Schema

end RecordForge
