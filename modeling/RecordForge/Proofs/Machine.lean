import RecordForge.Proofs.Spans

/-!
# Arithmetic of a machine

Random integers of a span are computed on unbounded integers, reduced to a word here and there. A machine would
compute on 64-bit words alone, every sum, difference and product of which is reduced at once. Both come to the
same word, since each operation on integers is one on the words that stand for them.

* `wrap_eq_bmod`: the word of an integer is the residue that a machine holds.
* `toInt_add`, `toInt_sub`, `toInt_mul`, `toInt_abs`, `toInt_mod`: what each machine operation is on integers.
* `Machine.randomProduct`: the random integer of a span times a scale, computed by a machine.
* `toInt_randomProduct`: it is the word of the integer picked, times the scale.
* **`random_long_on_words`**: a random long is what the machine computes.
-/

namespace RecordForge

/-! ## Operations on words -/

namespace Word

/-- The word of an integer is its residue that is nearest to zero. -/
theorem wrap_eq_bmod (n : Int) : wrap n = n.bmod Int64.size := by
  have hsize : (Int64.size : Int) = count := rfl
  have hhalf : (count + 1) / 2 = -minLong := rfl
  rw [Int.bmod_def, hsize, hhalf]
  by_cases h : n % count < -minLong
  · rw [if_pos h]
    simp only [wrap, count, minLong] at *
    omega
  · rw [if_neg h]
    simp only [wrap, count, minLong] at *
    omega

theorem isLong_toInt (x : Int64) : IsLong x.toInt := by
  have hlow := x.le_toInt
  have hhigh := x.toInt_lt
  simp only [IsLong, minLong, maxLong]
  omega

theorem toInt_add (x y : Int64) : (x + y).toInt = wrap (x.toInt + y.toInt) := by
  rw [Int64.toInt_add, wrap_eq_bmod]

theorem toInt_sub (x y : Int64) : (x - y).toInt = wrap (x.toInt - y.toInt) := by
  rw [Int64.toInt_sub, wrap_eq_bmod]

theorem toInt_mul (x y : Int64) : (x * y).toInt = wrap (x.toInt * y.toInt) := by
  rw [Int64.toInt_mul, wrap_eq_bmod]

/-- The absolute value of a machine leaves the least word as it is. -/
theorem toInt_abs (x : Int64) : x.abs.toInt = magnitude x.toInt := by
  have habs : x.abs.toInt = x.toBitVec.abs.toInt := rfl
  have hleast : (BitVec.intMin 64).toInt = minLong := rfl
  have hiff : x.toBitVec = BitVec.intMin 64 ↔ x.toInt = minLong := by
    rw [← hleast, ← BitVec.toInt_inj]
    rfl
  rw [habs, BitVec.toInt_abs_eq_natAbs, hleast, magnitude]
  by_cases h : x.toInt = minLong
  · rw [if_pos (hiff.mpr h), if_pos h, h]
  · rw [if_neg (mt hiff.mp h), if_neg h]
    rfl

/-- The remainder of a machine has the sign of the dividend. -/
theorem toInt_mod (x y : Int64) : (x % y).toInt = remainder x.toInt y.toInt := Int64.toInt_mod x y

end Word

/-! ## Random integers -/

/-- A random integer of a span times a scale, computed on 64-bit words: the absolute value of the draw leaves
the least word as it is, the remainder has the sign of its dividend, and the other operations wrap around. -/
def Machine.randomProduct (lower upper scale draw : Int64) : Int64 :=
  (draw.abs % (upper - lower) + lower) * scale

/-- A machine computes the word of the integer that is picked, times the scale. -/
theorem toInt_randomProduct (lower upper scale draw : Int64) :
    (Machine.randomProduct lower upper scale draw).toInt =
      Word.wrap (Word.pick lower.toInt upper.toInt draw.toInt * scale.toInt) := by
  rw [Machine.randomProduct, Word.toInt_mul, Word.toInt_add, Word.toInt_mod, Word.toInt_abs, Word.toInt_sub]
  rfl

/-- **A random long is what a machine computes on 64-bit words.** Take a strategy for a `long` field with a span
of 64-bit words, a 32-bit scale and no items, whose mode is neither `incr` nor `date`. It has a range as its
generator, and with every source every call whose draw is a 64-bit word gives the word that the machine comes to
from the bounds, the scale and the draw. -/
theorem random_long_on_words {d : Descriptor} {strategy : Strategy} {lower upper : Int64} {scale : Int32}
    (hkind : d.kind = .long) (hitems : strategy.items = none)
    (hmode : strategy.mode ≠ .incr ∧ strategy.mode ≠ .date)
    (hbounds : strategy.bounds = .integers lower.toInt upper.toInt) (hscale : strategy.scale = scale.toInt)
    (hproper : lower < upper) :
    ∃ width, strategy.generator d = .ok (.range lower.toInt width scale.toInt .long) ∧
      ∀ (σ : Type) [Source σ] (u : σ) (k : Nat) (draw : Int64),
        (Source.long ((Generator.range lower.toInt width scale.toInt .long).after k u).2).1 = draw.toInt →
          (Generator.range lower.toInt width scale.toInt .long).nth k u =
            .ok (.int (Machine.randomProduct lower upper scale.toInt64 draw).toInt) := by
  refine ⟨Word.wrap (upper.toInt - lower.toInt), ?_, fun σ _ u k draw hdraw => ?_⟩
  · rw [generator_eq_ofIntegers (by rw [hkind]; rfl) hitems hbounds, ofIntegers_range hmode.1 hmode.2, hscale,
      hkind]
  · have hleast : Word.minLong ≤ lower.toInt := (Word.isLong_toInt lower).1
    have hgreatest : upper.toInt ≤ Word.maxLong := (Word.isLong_toInt upper).2
    have hlt : lower.toInt < upper.toInt := Int64.lt_iff_toInt_lt.mp hproper
    rw [nth_range .long hleast hlt hgreatest, hdraw, toInt_randomProduct, Int32.toInt_toInt64]
    rfl

/-- A source whose long draws are all the least word. -/
def leastScript : Script := { longs := ⟨#[Word.minLong], 0⟩ }

/-- The widest span from minus five on: its width is negative as a word, and so is the remainder of the least
word by it. -/
theorem random_long_on_words_widest : ∃ width,
    Strategy.generator { bounds := .integers (-5) 9223372036854775807, scale := 7 } (.plain "n" .long) =
        .ok (.range (-5) width 7 .long) ∧
      (Generator.range (-5) width 7 .long).nth 0 leastScript = .ok (.int (-63)) := by
  obtain ⟨width, hbuilt, hcalls⟩ := @random_long_on_words (.plain "n" .long)
    { bounds := .integers (-5) 9223372036854775807, scale := 7 } (-5) 9223372036854775807 7
    rfl rfl (by decide) rfl rfl (by decide)
  exact ⟨width, hbuilt, hcalls Script leastScript 0 Int64.minValue rfl⟩

end RecordForge
