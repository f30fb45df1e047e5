import RecordForge.Value

/-!
# Descriptors of fields

A descriptor says what a field of the schema may hold. Only the symbols of an enum, the members of a
union and whether null is one of them matter; what else a schema says about a type is not kept.

* `Descriptor`: the tree, with decidable equality.
* `Descriptor.choices`: the distinct members of a union that can be generated.
-/

namespace RecordForge

/-- The elements of a list without later repetitions. -/
def firsts {α : Type} [DecidableEq α] : List α → List α
  | [] => []
  | a :: l => a :: (firsts l).filter fun b => b ≠ a

/-- An element is kept exactly when it was there. -/
theorem mem_firsts {α : Type} [DecidableEq α] {a : α} {l : List α} : a ∈ firsts l ↔ a ∈ l := by
  induction l with
  | nil => simp [firsts]
  | cons b l ih => by_cases h : a = b <;> simp [firsts, h, ih]

/-- No element is kept twice. -/
theorem nodup_firsts {α : Type} [DecidableEq α] (l : List α) : (firsts l).Nodup := by
  induction l with
  | nil => simp [firsts]
  | cons b l ih =>
    simp only [firsts, List.nodup_cons, List.mem_filter]
    exact ⟨by simp, ih.filter _⟩

/-- What a field may hold. -/
structure Descriptor where
  name : String
  kind : Kind
  /-- The symbols of an enum. -/
  symbols : List String
  /-- The members of a union. -/
  members : List Descriptor
  /-- Whether a union offers null. -/
  nullable : Bool

namespace Descriptor

/-! ## Equality -/

mutual

/-- Whether two descriptors are equal. -/
def decEq : (a b : Descriptor) → Decidable (a = b)
  | ⟨n, k, s, m, u⟩, ⟨n', k', s', m', u'⟩ =>
    match decEqMembers m m' with
    | isFalse h => isFalse fun e => h (Descriptor.mk.inj e).2.2.2.1
    | isTrue hm =>
      if h : n = n' ∧ k = k' ∧ s = s' ∧ u = u' then
        isTrue (by obtain ⟨rfl, rfl, rfl, rfl⟩ := h; rw [hm])
      else
        isFalse fun e => h (by
          have := Descriptor.mk.inj e
          exact ⟨this.1, this.2.1, this.2.2.1, this.2.2.2.2⟩)

/-- Whether two lists of descriptors are equal. -/
def decEqMembers : (a b : List Descriptor) → Decidable (a = b)
  | [], [] => isTrue rfl
  | [], _ :: _ => isFalse (by simp)
  | _ :: _, [] => isFalse (by simp)
  | a :: l, b :: l' =>
    match decEq a b, decEqMembers l l' with
    | isTrue h, isTrue hl => isTrue (by rw [h, hl])
    | isFalse h, _ => isFalse fun e => h (List.cons.inj e).1
    | _, isFalse hl => isFalse fun e => hl (List.cons.inj e).2

end

instance : DecidableEq Descriptor := decEq

/-! ## Members -/

/-- A descriptor of a kind without symbols or members. -/
def plain (name : String) (kind : Kind) : Descriptor := ⟨name, kind, [], [], false⟩

/-- The union of some members. It offers null when one of them is null. -/
def union (name : String) (members : List Descriptor) : Descriptor :=
  ⟨name, .union, [], members, members.any fun m => m.kind == .null⟩

/-- The members of a union other than null. -/
def nonNull (d : Descriptor) : List Descriptor := d.members.filter fun m => m.kind != .null

/-- The distinct members of a union other than null. -/
def choices (d : Descriptor) : List Descriptor := firsts d.nonNull

/-- Every choice is a member. -/
theorem mem_members_of_mem_choices {d m : Descriptor} (h : m ∈ d.choices) : m ∈ d.members :=
  (List.mem_filter.mp (mem_firsts.mp h)).1

end Descriptor

end RecordForge
