import Mathlib.Data.Int.CardIntervalMod
import Mathlib.Logic.Relation
import RecordForge.Generator.FromStrategy
import RecordForge.Proofs.Sharing

/-!
# Rotations

A rotation gives its items in order, over and over. It holds the position of the next item, which a call moves on by
one, and from the last position back to the first.

* `count_cycle`: how often a remainder comes among numbers in a row.
* `next_rotate`: a call takes the item at the position. `reached_rotate`: where a rotation can come to.
* `after_rotate`, `nth_rotate`: where any number of calls leave it, and what the next one gives.
* `run_rotate`, `run_rounds`, `run_take`: the values of calls in a row, of whole rounds, and of the beginning of
  these.
* `Strategy.Offers`: the items that a strategy has for a field; `generator_of_offers`.
* **`rotation_cycles_evenly`**: what a rotation gives, and how often each position is used.
-/

namespace RecordForge

/-! ## How often a remainder comes -/

/-- A quotient that is rounded up is the quotient, or one more if there is a remainder. -/
theorem ceil_div {n : Nat} (hn : 0 < n) (m : Nat) : (m + n - 1) / n = m / n + if m % n = 0 then 0 else 1 := by
  have hlast : n - 1 < n := Nat.sub_lt hn Nat.one_pos
  rw [Nat.add_sub_assoc hn, Nat.add_div hn, Nat.div_eq_of_lt hlast, Nat.mod_eq_of_lt hlast, Nat.add_zero]
  congr 1
  split <;> split <;> omega

/-- Numbers that come to a remainder after some others are those of one remainder. -/
theorem add_mod_eq_iff {n j : Nat} (hj : j < n) (first t : Nat) :
    (first + t) % n = j ↔ t ≡ j + (n - first % n) [MOD n] := by
  have hround : first + (j + (n - first % n)) ≡ j [MOD n] := by
    have hlt := Nat.mod_lt first (Nat.zero_lt_of_lt hj)
    have hsplit : first + (j + (n - first % n)) = j + n * (first / n + 1) := by
      have := Nat.div_add_mod first n
      rw [Nat.mul_add_one]
      omega
    rw [hsplit]
    exact Nat.add_mul_mod_self_left j n _
  have hcongr : (first + t) % n = j ↔ first + t ≡ j [MOD n] := by rw [Nat.ModEq, Nat.mod_eq_of_lt hj]
  rw [hcongr]
  constructor
  · exact fun h => (h.trans hround.symm).add_left_cancel' first
  · exact fun h => (h.add_left first).trans hround

/-- **Among numbers in a row every remainder comes about equally often.** -/
theorem count_cycle {n j : Nat} (hj : j < n) (first count : Nat) :
    Nat.count (fun t => (first + t) % n = j) count = count / n ∨
      Nat.count (fun t => (first + t) % n = j) count = (count + n - 1) / n := by
  have hn : 0 < n := Nat.zero_lt_of_lt hj
  simp only [add_mod_eq_iff hj, Nat.count_modEq_card count hn, ceil_div hn]
  split
  · right
    rw [if_neg (by omega)]
  · exact .inl rfl

namespace Generator

variable {τ : Type} [Source τ] {items : List Value} {i : Nat}

/-! ## Positions -/

theorem itemAt?_natCast (items : List Value) (i : Nat) : itemAt? items (i : Int) = items[i]? := by
  rw [itemAt?, if_pos (Int.natCast_nonneg i), Int.toNat_natCast]

/-- **A call takes the item at the position**, which then moves on. -/
theorem next_rotate (hi : i < items.length) (u : τ) :
    (rotate items i).next u = (.ok items[i], rotate items ((i + 1) % items.length : Nat), u) := by
  simp only [next, itemAt?_natCast, List.getElem?_eq_getElem hi]
  rfl

/-- **Whatever moves a rotation leaves it at a position of an item.** -/
theorem reached_rotate (hi : i < items.length) {g : Generator}
    (h : Relation.ReflTransGen Moves (rotate items i) g) : ∃ j < items.length, g = rotate items (j : Nat) := by
  induction h with
  | refl => exact ⟨i, hi, rfl⟩
  | tail _ hmoves ih =>
    obtain ⟨j, hj, rfl⟩ := ih
    cases hmoves with
    | stays => exact ⟨j, hj, rfl⟩
    | turns => exact ⟨(j + 1) % items.length, Nat.mod_lt _ (Nat.zero_lt_of_lt hj), rfl⟩

/-- **Where calls leave a rotation.** -/
theorem after_rotate : ∀ (k : Nat) {i : Nat} (_ : i < items.length) (u : τ),
    (rotate items i).after k u = (rotate items ((i + k) % items.length : Nat), u)
  | 0, i, hi, u => by rw [after, Nat.add_zero, Nat.mod_eq_of_lt hi]
  | k + 1, i, hi, u => by
    rw [after, next_rotate hi]
    refine (after_rotate k (Nat.mod_lt _ (Nat.zero_lt_of_lt hi)) u).trans ?_
    rw [Nat.mod_add_mod, Nat.add_assoc, Nat.add_comm 1 k]

theorem nth_rotate (hi : i < items.length) (k : Nat) (u : τ) :
    ∃ v, items[(i + k) % items.length]? = some v ∧ (rotate items i).nth k u = .ok v := by
  have hlt : (i + k) % items.length < items.length := Nat.mod_lt _ (Nat.zero_lt_of_lt hi)
  refine ⟨_, List.getElem?_eq_getElem hlt, ?_⟩
  rw [nth, after_rotate k hi, next_rotate hlt]

/-! ## Calls in a row -/

/-- Calls in a row go on after others, unless one of these has failed. -/
theorem run_add (n : Nat) : ∀ (m : Nat) (g : Generator) (u : τ),
    g.run (m + n) u = match g.run m u with
      | (vs, none, g, u) => (vs ++ (g.run n u).1, (g.run n u).2)
      | (vs, some e, g, u) => (vs, some e, g, u)
  | 0, g, u => by rw [Nat.zero_add, run]; rfl
  | m + 1, g, u => by
    rw [Nat.succ_add, run, run]
    rcases g.next u with ⟨e | v, g', u'⟩
    · rfl
    · simp only [run_add n m g' u']
      rcases g'.run m u' with ⟨vs, - | e, g'', u''⟩ <;> rfl

/-- **The values of calls in a row.** -/
theorem run_rotate : ∀ (count : Nat) {i : Nat} (_ : i < items.length) (u : τ),
    ∃ vs, (rotate items i).run count u = (vs, none, rotate items ((i + count) % items.length : Nat), u) ∧
      vs.map some = (List.range count).map fun k => items[(i + k) % items.length]?
  | 0, i, hi, u => ⟨[], by rw [run, Nat.add_zero, Nat.mod_eq_of_lt hi], rfl⟩
  | count + 1, i, hi, u => by
    obtain ⟨vs, hrun, hvs⟩ := run_rotate count (Nat.mod_lt (i + 1) (Nat.zero_lt_of_lt hi)) u
    have hnext (k : Nat) : ((i + 1) % items.length + k) % items.length = (i + (k + 1)) % items.length := by
      rw [Nat.mod_add_mod, Nat.add_assoc, Nat.add_comm 1 k]
    refine ⟨items[i] :: vs, ?_, ?_⟩
    · simp only [run, next_rotate hi, hrun, hnext]
    · have hhead : items[(i + 0) % items.length]? = some items[i] := by
        rw [Nat.add_zero, Nat.mod_eq_of_lt hi, List.getElem?_eq_getElem hi]
      rw [List.range_succ_eq_map, List.map_cons, List.map_cons, List.map_map, hhead, hvs]
      simp only [hnext]
      rfl

/-- A round gives all items in order and ends where it has begun. -/
theorem run_round (hne : items ≠ []) (u : τ) :
    (rotate items 0).run items.length u = (items, none, rotate items 0, u) := by
  obtain ⟨vs, hrun, hvs⟩ := run_rotate items.length (List.length_pos_iff.mpr hne) u
  have hall : vs.map some = items.map some := by
    rw [hvs]
    apply List.ext_getElem (by simp)
    intro k hk _
    have hlt : k < items.length := by simpa using hk
    simp [Nat.mod_eq_of_lt hlt, hlt]
  rw [Nat.zero_add, Nat.mod_self, List.map_injective_iff.mpr (Option.some_injective Value) hall] at hrun
  exact hrun

/-- **Rounds repeat the items.** -/
theorem run_rounds (hne : items ≠ []) (u : τ) : ∀ rounds : Nat, (rotate items 0).run (rounds * items.length) u =
    ((List.replicate rounds items).flatten, none, rotate items 0, u)
  | 0 => by rw [Nat.zero_mul]; rfl
  | rounds + 1 => by
    rw [Nat.succ_mul, Nat.add_comm, run_add, run_round hne]
    simp only [run_rounds hne u rounds, List.replicate_succ, List.flatten_cons]

/-- **The values of calls in a row are the beginning of the items repeated.** -/
theorem run_take (hne : items ≠ []) (count : Nat) (u : τ) : ((rotate items 0).run count u).1 =
    ((List.replicate count items).flatten).take count := by
  have hpos : 0 < items.length := List.length_pos_iff.mpr hne
  obtain ⟨vs, g', hrun, hvs⟩ : ∃ vs g', (rotate items 0).run count u = (vs, none, g', u) ∧ vs.length = count := by
    obtain ⟨vs, hrun, hvs⟩ := run_rotate count hpos u
    exact ⟨vs, _, hrun, by simpa using congrArg List.length hvs⟩
  obtain ⟨more, hmore⟩ := Nat.exists_eq_add_of_le (Nat.le_mul_of_pos_right count hpos)
  have hrounds : vs ++ (g'.run more u).1 = (List.replicate count items).flatten := by
    have hall := congrArg Prod.fst (run_rounds hne u count)
    rw [hmore, run_add, hrun] at hall
    exact hall
  rw [hrun, ← hrounds]
  exact (List.take_left' hvs).symm

end Generator

/-! ## Strategies -/

/-- The items that a strategy has for a field: those that were entered, in their order, where the field can have a
set; otherwise the symbols of an enum, in the order in which they are declared. -/
inductive Strategy.Offers (s : Strategy) (d : Descriptor) : List Value → Prop
  | entered {items : List Value} : s.items = some items → d.kind ∈ [Kind.int, .long, .string, .enum] → Offers s d items
  | declared : s.items = none → d.kind = .enum → Offers s d (d.symbols.map .text)

/-- **A strategy of the mode `incr` rotates over its items from the first one on.** -/
theorem generator_of_offers {s : Strategy} {d : Descriptor} {items : List Value} (hmode : s.mode = .incr)
    (h : s.Offers d items) : s.generator d = .ok (.rotate items 0) := by
  have hrotate (xs : List Value) : Generator.ofItems s.mode xs = .rotate xs 0 := by rw [hmode]; rfl
  unfold Strategy.generator
  cases h with
  | entered hitems hkind =>
    simp only [List.mem_cons, List.not_mem_nil, or_false] at hkind
    rcases hkind with hkind | hkind | hkind | hkind <;>
      simp only [hkind, Strategy.integerGenerator, Strategy.textGenerator, Strategy.enumGenerator, hitems, hrotate,
        Option.getD_some]
  | declared hitems hkind =>
    simp only [hkind, Strategy.enumGenerator, hitems, hrotate, Option.getD_none]

/-- **Rotations go round and use every position equally often.** Take a rotation that stands at the position of one
of its items, which need not be distinct. Wherever calls or other moves bring it, it stands at the position of an
item. After any number of calls, it stands as many positions further, counted round, and the next call gives the item
there; nothing is drawn. Among any calls in a row, each position is used as often as the number of calls divided by
the number of items says, rounded down or up. A strategy of the mode `incr` that has items for a field makes the
rotation over them that stands at the first one; its values are the items, in order, repeated for as long as it is
called. -/
theorem rotation_cycles_evenly {items : List Value} {i : Nat} (hi : i < items.length) :
    (∀ g, Relation.ReflTransGen Generator.Moves (.rotate items i) g →
      ∃ j < items.length, g = .rotate items (j : Nat)) ∧
    (∀ (τ : Type) [Source τ] (k : Nat) (u : τ),
      (Generator.rotate items i).after k u = (.rotate items ((i + k) % items.length : Nat), u) ∧
        ∃ v, items[(i + k) % items.length]? = some v ∧ (Generator.rotate items i).nth k u = .ok v) ∧
    (∀ (τ : Type) [Source τ] (first count : Nat) (u : τ), ∀ j < items.length,
      let used := Nat.count
        (fun t => ((Generator.rotate items i).after (first + t) u).1 = .rotate items (j : Nat)) count
      used = count / items.length ∨ used = (count + items.length - 1) / items.length) ∧
    ∀ (s : Strategy) (d : Descriptor), s.mode = .incr → s.Offers d items →
      s.generator d = .ok (.rotate items 0) ∧
        ∀ (τ : Type) [Source τ] (count : Nat) (u : τ), ((Generator.rotate items 0).run count u).1 =
          ((List.replicate count items).flatten).take count := by
  have hne : items ≠ [] := List.ne_nil_of_length_pos (Nat.zero_lt_of_lt hi)
  refine ⟨fun g => Generator.reached_rotate hi, fun τ _ k u => ⟨Generator.after_rotate k hi u,
    Generator.nth_rotate hi k u⟩, fun τ _ first count u j hj => ?_,
    fun s d hmode h => ⟨generator_of_offers hmode h, fun τ _ => Generator.run_take hne⟩⟩
  have hstands (t : Nat) : ((Generator.rotate items i).after (first + t) u).1 = .rotate items (j : Nat) ↔
      (i + first + t) % items.length = j := by
    rw [Generator.after_rotate _ hi, ← Nat.add_assoc, Generator.rotate.injEq, Nat.cast_inj, and_iff_right rfl]
  simp only [hstands]
  exact count_cycle hj (i + first) count

/-- Three items, two of them the same. -/
def twiceItems : List Value := [.text "a", .text "b", .text "a"]

/-- From the last position on, the eighth call gives the first item, and four calls in a row use a position once or
twice. A field of strings that has this set gets the items in order. -/
theorem rotation_cycles_evenly_twice :
    let used := Nat.count
      (fun t => ((Generator.rotate twiceItems 2).after (1 + t) ({} : Script)).1 = .rotate twiceItems (0 : Nat)) 4
    (Generator.rotate twiceItems 2).nth 7 ({} : Script) = .ok (.text "a") ∧ (used = 1 ∨ used = 2) ∧
      ({ mode := .incr, items := some twiceItems } : Strategy).generator (.plain "s" .string) =
        .ok (.rotate twiceItems 0) ∧
      ((Generator.rotate twiceItems 0).run 5 ({} : Script)).1 =
        [.text "a", .text "b", .text "a", .text "a", .text "b"] := by
  have hlength : twiceItems.length = 3 := rfl
  have hi : 2 < twiceItems.length := by decide
  obtain ⟨-, hcalls, hused, hoffers⟩ := rotation_cycles_evenly hi
  rw [hlength] at hcalls hused
  obtain ⟨v, hv, hnth⟩ := (hcalls Script 7 {}).2
  obtain rfl : .text "a" = v := Option.some.inj hv
  obtain ⟨hgenerator, hvalues⟩ := hoffers { mode := .incr, items := some twiceItems } (.plain "s" .string) rfl
    (.entered rfl (by decide))
  exact ⟨hnth, hused Script 1 4 {} 0 (by decide), hgenerator, hvalues Script 5 {}⟩

end RecordForge
