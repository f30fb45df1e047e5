import RecordForge.Proofs.Products

/-!
# The values of a counter

A counter goes on by one in every call, also in one that fails, and a call gives its count times the scale. The
count and the product are both reduced to words, so how far a counter has come shows in the residue of its count
alone, and with an even scale its values come again before its counts do.

* `wrap_eq_wrap_iff`: which integers have one word.
* `fit_long`: what an integer leaves in a `long` field.
* `nth_counter_long`, `nth_counter_int`: what a call gives in the two kinds of integer fields.
* `nth_counter_eq_iff`: which calls give the same.
* **`counter_values`**: all values of a counter, and which of them are the same.
-/

namespace RecordForge

/-- Two integers have one word exactly if they differ by a multiple of `2 ^ 64`. -/
theorem Word.wrap_eq_wrap_iff {a b : Int} : wrap a = wrap b ↔ count ∣ b - a := by
  have hresidue : wrap a = wrap b ↔ b % count = a % count :=
    ⟨fun h => by rw [← wrap_emod a, h, wrap_emod], fun h => wrap_congr h.symm⟩
  rw [hresidue, Int.emod_eq_emod_iff_emod_sub_eq_zero, Int.dvd_iff_emod_eq_zero]

/-- A `long` field holds every word. -/
theorem fit_long (n : Int) : fit n .long = .ok (Word.wrap n) := by
  have hkind : Kind.long ≠ .int := nofun
  unfold fit
  exact if_neg fun h => hkind h.1

section Calls

variable {σ : Type} [Source σ] {count scale : Int}

theorem nth_counter_long (n : Nat) (u : σ) :
    (Generator.counter count scale .long).nth n u = .ok (.int (Word.wrap ((count + n) * scale))) := by
  rw [nth_counter, fit_long]
  rfl

theorem nth_counter_int (n : Nat) (u : σ) :
    (Generator.counter count scale .int).nth n u =
      if Word.IsInt (Word.wrap ((count + n) * scale)) then .ok (.int (Word.wrap ((count + n) * scale)))
      else .error (.misfit (Word.wrap ((count + n) * scale))) := by
  rw [nth_counter, fit_int]
  split <;> rfl

/-- Two calls for a long give the same exactly if their distance times the scale is a multiple of `2 ^ 64`. -/
theorem nth_counter_eq_iff (i j : Nat) (u : σ) :
    (Generator.counter count scale .long).nth i u = (Generator.counter count scale .long).nth j u ↔
      Word.count ∣ ((j : Int) - i) * scale := by
  have hdistance : (count + j) * scale - (count + i) * scale = ((j : Int) - i) * scale := by
    rw [← Int.sub_mul, Int.add_sub_add_left]
  rw [nth_counter_long, nth_counter_long, ← hdistance, ← Word.wrap_eq_wrap_iff, Except.ok.injEq, Value.int.injEq]

end Calls

/-- **The values of a counter.** For every count, scale and source, and for any number of calls: the counter
draws nothing and is a word further after every call, also after one that failed and past the greatest word.
The product of the count and the scale decides what a call gives: a `long` field has its word, and an `int` field
has it too if it is a 32-bit word and else fails. So two calls for a `long` field give the same exactly if
`2 ^ 64` divides their distance times the scale. -/
theorem counter_values {σ : Type} [Source σ] (count scale : Int) (u : σ) :
    (∀ (kind : Kind) (k : Nat), (Generator.counter count scale kind).after (k + 1) u =
      (.counter (Word.wrap (count + k + 1)) scale kind, u)) ∧
    (∀ k : Nat, (Generator.counter count scale .long).nth k u =
      .ok (.int (Word.wrap ((count + k) * scale)))) ∧
    (∀ k : Nat, (Generator.counter count scale .int).nth k u =
      if Word.IsInt (Word.wrap ((count + k) * scale)) then .ok (.int (Word.wrap ((count + k) * scale)))
      else .error (.misfit (Word.wrap ((count + k) * scale)))) ∧
    (∀ i j : Nat, (Generator.counter count scale .long).nth i u = (Generator.counter count scale .long).nth j u ↔
      Word.count ∣ ((j : Int) - i) * scale) := by
  refine ⟨fun kind k => ?_, fun k => ?_, fun k => ?_, fun i j => ?_⟩
  · exact after_counter_succ k u
  · exact nth_counter_long k u
  · exact nth_counter_int k u
  · exact nth_counter_eq_iff i j u

end RecordForge
