import RecordForge.Command.Grammar
import RecordForge.Number.Notation
import RecordForge.Number.Numeral

/-!
# Integers as they are written

An integer is written in ASCII digits, with a minus sign in front where it is negative. A command takes these for
decimal digits, and the text spells the integer.

* `digit?_of_isDigit`, `isDigit_of_mem`: a natural is written in digits, and these are read.
* `numeral`: what is written of an integer.
* `leadingDigits_append`: digits are told from what follows them, if that does not begin with another digit.
* `digitRun_eq`, **`integer?_numeral`**: what is written spells the integer, if it has not too many digits.
-/

namespace RecordForge

open Text Decimal

/-! ## Digits -/

theorem toNat_of_isDigit {c : Char} (h : c.isDigit = true) : 48 ≤ c.toNat ∧ c.toNat ≤ 57 := by
  simp only [Char.isDigit, Bool.and_eq_true, decide_eq_true_eq, UInt32.le_iff_toNat_le] at h
  exact h

/-- An ASCII digit has its usual value. -/
theorem digit?_of_isDigit {c : Char} (h : c.isDigit = true) : digit? c = some (c.toNat - '0'.toNat) := by
  have hrange := toNat_of_isDigit h
  have hfound : zeros.find? (fun z => z ≤ c.toNat && c.toNat < z + 10) = some 48 := by
    apply List.find?_cons_of_pos
    simp only [Bool.and_eq_true, decide_eq_true_eq]
    omega
  rw [digit?, hfound]
  rfl

/-- An ASCII digit is no blank. -/
theorem isBlank_of_isDigit {c : Char} (h : c.isDigit = true) : isBlank c = false := by
  have hrange := toNat_of_isDigit h
  simp only [isBlank, Bool.or_eq_false_iff, Bool.and_eq_false_iff, decide_eq_false_iff_not,
    beq_eq_false_iff_ne]
  omega

/-- A natural is written in ASCII digits. -/
theorem isDigit_of_mem {n : Nat} {c : Char} (h : c ∈ digitsOf n) : c.isDigit = true :=
  Nat.isDigit_of_mem_toDigits (by decide) (by decide) h

/-- What is written of a natural begins with a digit. -/
theorem exists_digitsOf (n : Nat) : ∃ c cs, digitsOf n = c :: cs ∧ c.isDigit = true := by
  obtain ⟨c, cs, hcs⟩ := List.exists_cons_of_ne_nil (Nat.toDigits_ne_nil (n := n) (b := 10))
  have hmem : c ∈ digitsOf n := by
    rw [digitsOf, hcs]
    exact List.mem_cons_self
  exact ⟨c, cs, hcs, isDigit_of_mem hmem⟩

/-- A natural with few digits is small. -/
theorem length_digitsOf_le {n k : Nat} (hk : 0 < k) (h : n < tenTo k) : (digitsOf n).length ≤ k :=
  (Nat.length_toDigits_le_iff (by decide) hk).mpr h

/-- What is written of an integer. -/
def numeral (n : Int) : List Char := (Decimal.integer n).toList

theorem numeral_eq (n : Int) : numeral n = (if n < 0 then ['-'] else []) ++ digitsOf n.natAbs :=
  String.toList_ofList

theorem numeral_ne_nil (n : Int) : numeral n ≠ [] := by
  obtain ⟨c, cs, hcs, -⟩ := exists_digitsOf n.natAbs
  rw [numeral_eq, hcs]
  exact List.append_ne_nil_of_right_ne_nil _ (List.cons_ne_nil c cs)

/-- There is nothing but digits in what is written of an integer, except for its sign. -/
theorem eq_or_isDigit_of_mem_numeral {n : Int} {c : Char} (h : c ∈ numeral n) :
    c = '-' ∨ c.isDigit = true := by
  rw [numeral_eq, List.mem_append] at h
  rcases h with h | h
  · split at h
    · exact Or.inl (List.mem_singleton.mp h)
    · cases h
  · exact Or.inr (isDigit_of_mem h)

/-- So there is no blank in it. -/
theorem isBlank_of_mem_numeral {n : Int} {c : Char} (h : c ∈ numeral n) : isBlank c = false := by
  rcases eq_or_isDigit_of_mem_numeral h with rfl | h
  · decide
  · exact isBlank_of_isDigit h

/-- Nor a comma. -/
theorem comma_not_mem_numeral (n : Int) : ',' ∉ numeral n := by
  intro h
  rcases eq_or_isDigit_of_mem_numeral h with h | h
  · exact absurd h (by decide)
  · exact absurd h (by decide)

/-! ## In a command -/

section Command

open Command

/-- A text does not begin with a digit. -/
def EndsDigits (rest : List Char) : Prop := ∀ c ∈ rest.head?, Text.isDigit c = false

variable {ds rest : List Char}

theorem leadingDigits_append (hds : ∀ c ∈ ds, Text.isDigit c = true) (hrest : EndsDigits rest) :
    leadingDigits (ds ++ rest) = ds ∧ afterDigits (ds ++ rest) = rest := by
  rw [leadingDigits, afterDigits, List.takeWhile_append_of_pos hds, List.dropWhile_append_of_pos hds]
  cases rest with
  | nil => simp
  | cons c rest =>
    have hc : Text.isDigit c = false := hrest c rfl
    simp [hc]

end Command

/-! ## As a number -/

section Number

open Numeral

/-- A run of ASCII digits is read to its end. -/
theorem digitRun_eq : ∀ {cs : List Char}, (∀ c ∈ cs, c.isDigit = true) →
    digitRun cs = (cs.map fun c => c.toNat - '0'.toNat, [])
  | [], _ => rfl
  | c :: cs, h => by
    obtain ⟨hc, hcs⟩ := List.forall_mem_cons.mp h
    have ih := digitRun_eq hcs
    rw [digitRun.eq_4 _ _ _ _, digit?_of_isDigit hc, ih]
    · rfl
    · rintro rfl
      exact absurd hc (by decide)
    · rintro s rfl
      exact absurd (hcs '_' List.mem_cons_self) (by decide)

theorem stripPadding_eq {s : List Char} (h : ∀ c ∈ s, isBlank c = false) : stripPadding s = s := by
  have hdrop {l : List Char} (hl : ∀ c ∈ l, isBlank c = false) : l.dropWhile isPadding = l := by
    cases l with
    | nil => rfl
    | cons c l =>
      have hc : isPadding c = false := by simp [isPadding, hl c List.mem_cons_self]
      rw [List.dropWhile_cons, hc]
      rfl
  rw [stripPadding, hdrop h, hdrop fun c hc => h c (List.mem_reverse.mp hc), List.reverse_reverse]

/-- The sign of an integer stands before its digits. -/
theorem sign_numeral (n : Int) :
    sign (numeral n) = (decide (n < 0), digitsOf n.natAbs) := by
  obtain ⟨c, cs, hcs, hc⟩ := exists_digitsOf n.natAbs
  rw [numeral_eq]
  by_cases hn : n < 0
  · rw [if_pos hn, decide_eq_true hn]
    rfl
  · rw [if_neg hn, decide_eq_false hn, List.nil_append, hcs]
    unfold sign
    split
    · rename_i s hs
      rw [(List.cons.inj hs).1] at hc
      exact absurd hc (by decide)
    · rename_i s hs
      rw [(List.cons.inj hs).1] at hc
      exact absurd hc (by decide)
    · rfl

/-- **What is written of an integer spells it**, if it has not too many digits. -/
theorem integer?_numeral {n : Int} (h : (digitsOf n.natAbs).length ≤ digitLimit) :
    Numeral.integer? (numeral n) = .ok n := by
  have hrun := digitRun_eq (fun c hc => isDigit_of_mem (n := n.natAbs) hc)
  have hvalue : ofDigits ((digitsOf n.natAbs).map fun c => c.toNat - '0'.toNat) = n.natAbs := by
    rw [ofDigits, List.foldl_map]
    exact Nat.ofDigitChars_toDigits (by decide) (by decide)
  obtain ⟨c, cs, hcs, -⟩ := exists_digitsOf n.natAbs
  unfold Numeral.integer?
  rw [stripPadding_eq fun c hc => isBlank_of_mem_numeral hc, sign_numeral]
  simp only [hrun, hvalue, List.length_map]
  rw [if_neg (by simp), if_neg (by omega), if_neg (by simp [hcs])]
  by_cases hn : n < 0
  · simp only [hn, decide_true, if_true]
    congr 1
    omega
  · simp only [hn, decide_false, Bool.false_eq_true, if_false]
    congr 1
    omega

/-- A word of 64 bits has not too many digits. -/
theorem integer?_of_isLong {n : Int} (h : Word.IsLong n) : Numeral.integer? (numeral n) = .ok n := by
  have hlength : (digitsOf n.natAbs).length ≤ 20 := by
    apply length_digitsOf_le (by decide)
    have hten : tenTo 20 = 100000000000000000000 := rfl
    simp only [Word.IsLong, Word.minLong, Word.maxLong] at h
    omega
  exact integer?_numeral (Nat.le_trans hlength (by decide))

end Number

end RecordForge
