import RecordForge.Proofs.Intervals
import RecordForge.Proofs.Singles
import RecordForge.Proofs.Spellings

/-!
# Numbers are told apart by their names

What is written of a floating-point number is a sign and digits, with a point among them or an exponent after them.
They spell a decimal exactly, and this decimal is rounded to the number. So two numbers with the same text are the
same, unless they are none.

* `spelled?`, `readText`: the decimal that a text spells, and its sign.
* `spelled?_positional`, `spelled?_scientific`: both notations spell the digits at their place.
* `Reads`, `reads_unique`: a decimal is rounded to a number, and only to this one.
* `Style.Covers`, `covers_double`, `covers_single`: the numbers of a style are its own after they are rounded.
* **`shortestText_injective`**: numbers with the same text are the same.
-/

namespace RecordForge.Decimal

open Binary Text Numeral Command

/-! ## Texts of decimals -/

/-- The decimal that an unsigned text in digits spells. -/
def spelled? (s : List Char) : Option ℚ :=
  let (whole, afterWhole) := digitRun s
  let (fraction, rest) := match afterWhole with
    | '.' :: t => digitRun t
    | t => ([], t)
  if whole.isEmpty && fraction.isEmpty then none
  else (exponent? rest).map fun (e : Int) => (ofDigits (whole ++ fraction) : ℚ) * 10 ^ (e - fraction.length)

/-- The sign of a text, and the decimal that it spells. -/
def readText (s : List Char) : Bool × Option ℚ := ((sign s).1, spelled? (sign s).2)

section Digits

variable {ds fs rest digits : List Char}

theorem foldl_digits (n : Nat) (ds : List Nat) :
    ds.foldl (fun n d => 10 * n + d) n = n * 10 ^ ds.length + ofDigits ds := by
  have hshift : ∀ (ds : List Nat) (n : Nat), ds.foldl (fun n d => 10 * n + d) n =
      n * 10 ^ ds.length + ds.foldl (fun n d => 10 * n + d) 0 := by
    intro ds
    induction ds with
    | nil => simp
    | cons d ds ih =>
      intro n
      rw [List.foldl_cons, List.foldl_cons, ih (10 * n + d), ih (10 * 0 + d), List.length_cons, Nat.pow_succ]
      ring
  exact hshift ds n

theorem ofDigits_append (as bs : List Nat) : ofDigits (as ++ bs) = ofDigits as * 10 ^ bs.length + ofDigits bs := by
  rw [ofDigits, List.foldl_append, foldl_digits]
  rfl

theorem ofDigits_zeros (n : Nat) : ofDigits (List.replicate n 0) = 0 := by
  induction n with
  | zero => rfl
  | succ n ih => exact ih

/-- The digits of a natural spell it. -/
theorem ofDigits_digitsOf (n : Nat) : ofDigits (values (digitsOf n)) = n := by
  have hvalues : values (digitsOf n) = (digitsOf n).map fun c => c.toNat - '0'.toNat := by
    rw [values, ← List.filterMap_eq_map]
    apply List.filterMap_congr
    exact fun c hc => digit?_of_isDigit (isDigit_of_mem hc)
  rw [hvalues, ofDigits, List.foldl_map]
  exact Nat.ofDigitChars_toDigits (by decide) (by decide)

theorem values_zeros (n : Nat) : values (List.replicate n '0') = List.replicate n 0 := by
  induction n with
  | zero => rfl
  | succ n ih => exact congrArg (0 :: ·) ih

theorem isDigit_of_mem_zeros {n : Nat} : ∀ c ∈ List.replicate n '0', Text.isDigit c = true := by
  intro c hc
  rw [List.eq_of_mem_replicate hc]
  decide

/-- Digits after a point count for less than one. -/
theorem spelled?_point (hds : IsNatural ds) (hfs : ∀ c ∈ fs, Text.isDigit c = true)
    (hrest : ∀ c ∈ rest.head?, Text.isDigit c = false ∧ c ≠ '_') : spelled? (ds ++ '.' :: (fs ++ rest)) =
      (exponent? rest).map fun (e : Int) => (ofDigits (values ds ++ values fs) : ℚ) * 10 ^ (e - fs.length) := by
  have hpoint : ∀ c ∈ ('.' :: (fs ++ rest)).head?, Text.isDigit c = false ∧ c ≠ '_' := by
    intro c hc
    obtain rfl := Option.some.inj hc
    decide
  have hfilled : (values ds).isEmpty = false := List.isEmpty_eq_false_iff.mpr (values_ne_nil hds)
  rw [spelled?, digitRun_digits hds.2 hpoint]
  simp only [digitRun_digits hfs hrest, hfilled, Bool.false_and, Bool.false_eq_true, if_false, length_values hfs]

/-- Nothing need follow them. -/
theorem spelled?_point_end (hds : IsNatural ds) (hfs : ∀ c ∈ fs, Text.isDigit c = true) :
    spelled? (ds ++ '.' :: fs) = some ((ofDigits (values ds ++ values fs) : ℚ) * 10 ^ (-(fs.length : Int))) := by
  have hread : spelled? (ds ++ '.' :: (fs ++ [])) = _ := spelled?_point hds hfs (fun c hc => nomatch hc)
  rw [List.append_nil] at hread
  rw [hread, exponent?, Option.map_some, Int.zero_sub]

/-- There need not be a point. -/
theorem spelled?_whole (hds : IsNatural ds) (hrest : ∀ c ∈ rest.head?, Text.isDigit c = false ∧ c ≠ '_' ∧ c ≠ '.') :
    spelled? (ds ++ rest) = (exponent? rest).map fun (e : Int) => (ofDigits (values ds) : ℚ) * 10 ^ e := by
  have hfilled : (values ds).isEmpty = false := List.isEmpty_eq_false_iff.mpr (values_ne_nil hds)
  rw [spelled?, digitRun_digits hds.2 fun c hc => ⟨(hrest c hc).1, (hrest c hc).2.1⟩]
  dsimp only
  split
  · exact absurd rfl (hrest '.' rfl).2.2
  · simp [hfilled]

/-- The digits with their point at a place. -/
def placed (digits : List Char) (place : Int) : ℚ := (ofDigits (values digits) : ℚ) * 10 ^ (place - digits.length)

/-- The positional notation spells the digits at their place. -/
theorem spelled?_positional (hdigits : IsNatural digits) (place : Int) :
    spelled? (positional digits place) = some (placed digits place) := by
  have hzero : ∀ c ∈ ['0'], Text.isDigit c = true := List.forall_mem_singleton.mpr (by decide)
  have hnone : ofDigits (values ['0']) = 0 ∧ (values ['0']).length = 1 := ⟨rfl, rfl⟩
  rw [positional, placed]
  split
  · -- zeros stand between the point and the digits
    rename_i hplace
    have hfs : ∀ c ∈ List.replicate (-place).toNat '0' ++ digits, Text.isDigit c = true :=
      List.forall_mem_append.mpr ⟨isDigit_of_mem_zeros, hdigits.2⟩
    refine (spelled?_point_end ⟨List.cons_ne_nil _ _, hzero⟩ hfs).trans (congrArg some ?_)
    rw [values_append, values_zeros, ofDigits_append, ofDigits_append, ofDigits_zeros, hnone.1, Nat.zero_mul,
      Nat.zero_mul, Nat.zero_add, Nat.zero_add, List.length_append, List.length_replicate]
    congr 2
    push_cast
    omega
  · rename_i hplace
    obtain ⟨k, rfl⟩ := Int.eq_ofNat_of_zero_le (by omega : 0 ≤ place)
    simp only [Int.toNat_natCast]
    by_cases hk : digits.length ≤ k
    · -- zeros stand between the digits and the point
      have hwhole : IsNatural (digits ++ List.replicate (k - digits.length) '0') :=
        ⟨List.append_ne_nil_of_left_ne_nil hdigits.1 _,
          List.forall_mem_append.mpr ⟨hdigits.2, isDigit_of_mem_zeros⟩⟩
      have hpower : ((10 ^ (k - digits.length + 1) : ℕ) : ℚ) * 10 ^ (-1 : Int) = 10 ^ ((k : Int) - digits.length) := by
        rw [Nat.cast_pow, Nat.cast_ofNat, ← zpow_natCast, ← zpow_add₀ (by norm_num)]
        congr 1
        omega
      rw [List.take_of_length_le hk, List.drop_eq_nil_of_le hk]
      refine (spelled?_point_end hwhole hzero).trans (congrArg some ?_)
      rw [values_append, values_zeros, ofDigits_append, ofDigits_append, ofDigits_zeros, hnone.1, hnone.2,
        List.length_replicate, Nat.add_zero, Nat.add_zero, mul_assoc, ← Nat.pow_add, Nat.cast_mul, mul_assoc]
      exact congrArg _ hpower
    · -- the point stands among the digits
      have htake : IsNatural (digits.take k) := by
        refine ⟨?_, fun c hc => hdigits.2 c (List.mem_of_mem_take hc)⟩
        rw [ne_eq, List.take_eq_nil_iff, not_or]
        exact ⟨by omega, hdigits.1⟩
      have hdrop : ∀ c ∈ digits.drop k, Text.isDigit c = true := fun c hc => hdigits.2 c (List.mem_of_mem_drop hc)
      have hsome : (digits.drop k).isEmpty = false := by
        rw [List.isEmpty_eq_false_iff, ne_eq, List.drop_eq_nil_iff]
        exact hk
      have hfull : k - digits.length = 0 := by omega
      rw [hsome, hfull, List.replicate_zero, List.append_nil]
      refine (spelled?_point_end htake hdrop).trans (congrArg some ?_)
      rw [← values_append, List.take_append_drop, List.length_drop]
      congr 2
      omega

/-- The exponent of the scientific notation is read. -/
theorem exponent?_scientific (e : Int) :
    exponent? (['e', if e < 0 then '-' else '+'] ++
      (if (digitsOf e.natAbs).length < 2 then '0' :: digitsOf e.natAbs else digitsOf e.natAbs)) = some e := by
  obtain ⟨w, hw⟩ : ∃ w, w = if (digitsOf e.natAbs).length < 2 then '0' :: digitsOf e.natAbs else digitsOf e.natAbs :=
    ⟨_, rfl⟩
  have hvalue : ofDigits (values w) = e.natAbs := by
    rw [hw]
    split
    · exact ofDigits_digitsOf e.natAbs
    · exact ofDigits_digitsOf e.natAbs
  have hdigits : IsNatural w := by
    rw [hw]
    split
    · exact ⟨List.cons_ne_nil _ _, List.forall_mem_cons.mpr ⟨by decide, (isNatural_digitsOf e.natAbs).2⟩⟩
    · exact isNatural_digitsOf e.natAbs
  obtain ⟨v, vs, hvs⟩ := List.exists_cons_of_ne_nil (values_ne_nil hdigits)
  rw [← hw]
  by_cases he : e < 0
  · rw [if_pos he]
    simp only [List.cons_append, List.nil_append, exponent?, true_or, if_true, sign, digitRun_all hdigits.2, hvs]
    rw [← hvs, hvalue]
    congr 1
    omega
  · rw [if_neg he]
    simp only [List.cons_append, List.nil_append, exponent?, true_or, if_true, sign, digitRun_all hdigits.2, hvs,
      Bool.false_eq_true, if_false]
    rw [← hvs, hvalue]
    congr 1
    omega

/-- The scientific notation spells the digits at their place. -/
theorem spelled?_scientific (hdigits : IsNatural digits) (place : Int) :
    spelled? (scientific digits place) = some (placed digits place) := by
  have hexponent := exponent?_scientific (place - 1)
  have hrest : ∀ (s : List Char) (c : Char), c ∈ (['e', if place - 1 < 0 then '-' else '+'] ++ s).head? →
      Text.isDigit c = false ∧ c ≠ '_' ∧ c ≠ '.' := by
    intro s c hc
    obtain rfl := Option.some.inj hc
    decide
  obtain ⟨d, ds, rfl⟩ := List.exists_cons_of_ne_nil hdigits.1
  obtain ⟨hd, hds⟩ := List.forall_mem_cons.mp hdigits.2
  have hone : IsNatural [d] := ⟨List.cons_ne_nil _ _, List.forall_mem_singleton.mpr hd⟩
  rw [placed]
  cases ds with
  | nil =>
    unfold scientific
    dsimp only
    rw [List.append_assoc, spelled?_whole hone (hrest _), hexponent]
    simp
  | cons c cs =>
    unfold scientific
    dsimp only
    rw [List.append_assoc]
    refine (spelled?_point hone hds fun c hc => ⟨(hrest _ c hc).1, (hrest _ c hc).2.1⟩).trans ?_
    rw [hexponent, ← values_append]
    simp only [Option.map_some, List.singleton_append, List.length_cons]
    congr 3
    push_cast
    omega

end Digits

/-! ## What a text says of a number -/

/-- A sign and a decimal are rounded to a number of a format. Without a decimal it is infinite. -/
inductive Reads (l : Layout) : Float → Bool → Option ℚ → Prop where
  | infinite (n : Bool) : Reads l (infinity n) n none
  | zero (n : Bool) : Reads l (ofFields n 0 0) n (some 0)
  | around {m : Nat} {q : Int} {v : ℚ} (n : Bool) : OnGrid l m q → Around l m q v →
    Reads l (encode ⟨n, m, q⟩) n (some v)

/-- A format that is no finer than that of doubles. -/
structure Coarse (l : Layout) : Prop where
  some : 1 ≤ l.precision
  precision : l.precision ≤ 53
  least : -1074 ≤ l.leastExponent

theorem coarse_double : Coarse double := ⟨by decide, by decide, by decide⟩

theorem coarse_single : Coarse single := ⟨by decide, by decide, by decide⟩

section

variable {l : Layout} {x y : Float} {n : Bool} {v : Option ℚ}

theorem around_pos {m : Nat} {q : Int} {v : ℚ} (hm : 0 < m) (h : Around l m q v) : 0 < v := by
  have hfactor : (1 : ℚ) ≤ m := by exact_mod_cast hm
  have hreach := reach_le l m q
  have hstep := two_zpow_pos q
  have hlow : 0 < ((m : ℚ) - reach l m q) * 2 ^ q := mul_pos (by linarith) hstep
  linarith [h.le.1]

/-- **A decimal is rounded to one number.** -/
theorem reads_unique (hl : 1 ≤ l.precision) (hx : Reads l x n v) (hy : Reads l y n v) : x = y := by
  cases hx with
  | infinite => cases hy; rfl
  | zero =>
    cases hy with
    | zero => rfl
    | around _ hgrid hv => exact absurd (around_pos hgrid.pos hv) (lt_irrefl 0)
  | around _ hgrid hv =>
    cases hy with
    | zero => exact absurd (around_pos hgrid.pos hv) (lt_irrefl 0)
    | around _ hgrid' hv' =>
      obtain ⟨rfl, rfl⟩ := around_unique hl hgrid hgrid' hv hv'
      rfl

/-- A number whose factor has not too many bits is on the grid of its format after its factor is moved up. -/
theorem onGrid_lift {m : Nat} {q : Int} (hm : m ≠ 0) (hlt : m < 2 ^ l.precision) (hq : l.leastExponent ≤ q) :
    OnGrid l (m * 2 ^ min (l.precision - 1 - m.log2) (q - l.leastExponent).toNat)
      (q - (min (l.precision - 1 - m.log2) (q - l.leastExponent).toNat : ℕ)) := by
  obtain ⟨a, ha⟩ : ∃ a, a = min (l.precision - 1 - m.log2) (q - l.leastExponent).toNat := ⟨_, rfl⟩
  have hlog : (m * 2 ^ a).log2 = m.log2 + a := log2_mul_pow hm a
  have hpos : 0 < m * 2 ^ a := by positivity
  have hbits : m.log2 < l.precision := (Nat.log2_lt hm).mpr hlt
  rw [← ha]
  refine ⟨hpos, (Nat.log2_lt hpos.ne').mp (by omega), by omega, ?_⟩
  by_cases htop : a = l.precision - 1 - m.log2
  · exact Or.inl ((Nat.le_log2 hpos.ne').mp (by omega))
  · exact Or.inr (by omega)

end

/-! ## Names of numbers -/

/-- The numbers that are written in a style: rounded to its format, a number is the same. -/
structure Style.Covers (style : Style) (x : Float) : Prop where
  number : x.isNaN = false
  rounded : ∀ d, decode? x = some d → d.m ≠ 0 → ∃ m q, roundTo style.layout d = ⟨d.negative, m, q⟩ ∧ m ≠ 0 ∧
    m < 2 ^ style.layout.precision ∧ style.layout.leastExponent ≤ q ∧ encode ⟨d.negative, m, q⟩ = x

section

variable {style : Style} {x y : Float}

theorem sign_append {body : List Char} (hbody : ∀ c ∈ body.head?, c ≠ '-' ∧ c ≠ '+') (n : Bool) :
    sign ((if n then ['-'] else []) ++ body) = (n, body) := by
  cases n with
  | true => rfl
  | false =>
    cases body with
    | nil => rfl
    | cons c body =>
      obtain ⟨hminus, hplus⟩ := hbody c rfl
      show sign (c :: body) = _
      rw [sign.eq_3]
      · rintro s ⟨⟩
        exact hminus rfl
      · rintro s ⟨⟩
        exact hplus rfl

/-- A text of another kind is no decimal. -/
theorem spelled?_of_not {c : Char} (hc : Text.isDigit c = false) (hunderscore : c ≠ '_') (hpoint : c ≠ '.')
    (s : List Char) : spelled? (c :: s) = none := by
  have hrun : digitRun ([] ++ c :: s) = (values [], c :: s) :=
    digitRun_digits (fun _ hd => nomatch hd) fun d hd => Option.some.inj hd ▸ ⟨hc, hunderscore⟩
  rw [List.nil_append] at hrun
  rw [spelled?, hrun]
  dsimp only
  split
  · rename_i heq
    exact absurd (List.cons.inj heq).1 hpoint
  · rfl

/-- A text that is read as a decimal has no sign. -/
theorem no_sign_of_spelled? {body : List Char} {v : ℚ} (h : spelled? body = some v) :
    ∀ c ∈ body.head?, c ≠ '-' ∧ c ≠ '+' := by
  intro c hc
  obtain ⟨s, rfl⟩ := List.head?_eq_some_iff.mp hc
  constructor
  · rintro rfl
    rw [spelled?_of_not (by decide) (by decide) (by decide)] at h
    cases h
  · rintro rfl
    rw [spelled?_of_not (by decide) (by decide) (by decide)] at h
    cases h

/-- The text of a number is its sign and the shortest name of it, spelled in one of the notations. -/
theorem toList_shortestText {d r : Binary.Dyadic} {a : Nat} (hd : decode? x = some d) (hm : d.m ≠ 0)
    (hr : roundTo style.layout d = r)
    (ha : a = min (style.layout.precision - 1 - r.m.log2) (r.q - style.layout.leastExponent).toNat) :
    ∃ body, (shortestText style x).toList = (if d.negative then ['-'] else []) ++ body ∧
      spelled? body = some (value (shortest style.layout (r.m * 2 ^ a) (r.q - a))) := by
  obtain ⟨name, hname⟩ : ∃ name, name = shortest style.layout (r.m * 2 ^ a) (r.q - a) := ⟨_, rfl⟩
  have hplaced : placed (digitsOf name.digits) ((digitsOf name.digits).length + name.exponent) = value name := by
    rw [placed, ofDigits_digitsOf, value, add_sub_cancel_left]
  have hdigits : IsNatural (digitsOf name.digits) := isNatural_digitsOf _
  have htext : ∃ p : Bool, shortestText style x = String.ofList ((if d.negative then ['-'] else []) ++
      if p then positional (digitsOf name.digits) ((digitsOf name.digits).length + name.exponent)
      else scientific (digitsOf name.digits) ((digitsOf name.digits).length + name.exponent)) := by
    unfold shortestText
    rw [hd]
    dsimp only
    rw [if_neg hm, hr, ← ha, twoTo_eq, ← hname]
    exact ⟨_, rfl⟩
  obtain ⟨p, htext⟩ := htext
  rw [htext, String.toList_ofList, ← hname]
  refine ⟨_, rfl, ?_⟩
  cases p with
  | false => exact (spelled?_scientific hdigits _).trans (congrArg some hplaced)
  | true => exact (spelled?_positional hdigits _).trans (congrArg some hplaced)

theorem shortestText_infinity (style : Style) (n : Bool) :
    shortestText style (infinity n) = if n then "-inf" else "inf" := by
  have hnegative : isNegative (infinity n) = n := isNegative_ofFields (by decide) (by decide) fun _ => rfl
  rw [shortestText, decode?_infinity]
  dsimp only
  rw [isNaN_infinity, hnegative]
  rfl

/-- **The text of a number says which one it is.** -/
theorem reads_shortestText (hl : Coarse style.layout) (hx : style.Covers x) :
    Reads style.layout x (readText (shortestText style x).toList).1 (readText (shortestText style x).toList).2 := by
  cases hd : decode? x with
  | none =>
    have hinf : x = infinity (isNegative x) := by
      refine (eq_of_decode?_none hd).resolve_left ?_
      rintro rfl
      cases hx.number
    have hword : spelled? ['i', 'n', 'f'] = none := spelled?_of_not (by decide) (by decide) (by decide) _
    generalize isNegative x = n at hinf
    rw [hinf, shortestText_infinity]
    cases n with
    | false =>
      show Reads style.layout (infinity false) false (spelled? ['i', 'n', 'f'])
      exact hword ▸ Reads.infinite false
    | true =>
      show Reads style.layout (infinity true) true (spelled? ['i', 'n', 'f'])
      exact hword ▸ Reads.infinite true
  | some d =>
    have hencode := encode_of_decode? hd
    obtain ⟨n, m, q⟩ := d
    by_cases hm : m = 0
    · have htext : (shortestText style x).toList = (if n then ['-'] else []) ++ ['0', '.', '0'] := by
        rw [shortestText, hd]
        dsimp only
        rw [if_pos hm, String.toList_ofList]
      have hzero : spelled? ['0', '.', '0'] = some 0 := by
        have hdigit : IsNatural ['0'] := ⟨List.cons_ne_nil _ _, List.forall_mem_singleton.mpr (by decide)⟩
        have hpoint : spelled? (['0'] ++ '.' :: ['0']) = _ := spelled?_point_end hdigit hdigit.2
        refine hpoint.trans (congrArg some ?_)
        rw [show ofDigits (values ['0'] ++ values ['0']) = 0 from rfl, Nat.cast_zero, zero_mul]
      rw [hm, encode_zero] at hencode
      rw [htext, readText, sign_append (no_sign_of_spelled? hzero), hzero, ← hencode]
      exact Reads.zero n
    · obtain ⟨m', q', hround, hm', hlt, hq, hsame⟩ := hx.rounded _ hd hm
      obtain ⟨a, ha⟩ : ∃ a, a = min (style.layout.precision - 1 - m'.log2) (q' - style.layout.leastExponent).toNat :=
        ⟨_, rfl⟩
      obtain ⟨body, htext, hbody⟩ := toList_shortestText hd hm hround ha
      have hgrid : OnGrid style.layout (m' * 2 ^ a) (q' - a) := ha ▸ onGrid_lift hm' hlt hq
      have hshift : encode ⟨n, m' * 2 ^ a, q' - a⟩ = x := by
        have hwide : m' * 2 ^ a < 2 ^ 53 := hgrid.lt.trans_le (Nat.pow_le_pow_right (by decide) hl.precision)
        rw [encode_shift hwide (hl.least.trans hgrid.least), Int.sub_add_cancel]
        exact hsame
      have hreads := Reads.around n hgrid (shortest_around hgrid hl.precision)
      rw [hshift] at hreads
      rw [htext, readText, sign_append (no_sign_of_spelled? hbody), hbody]
      exact hreads

/-- **Numbers with the same text are the same.** -/
theorem shortestText_injective (hl : Coarse style.layout) (hx : style.Covers x) (hy : style.Covers y)
    (h : shortestText style x = shortestText style y) : x = y := by
  have hread := reads_shortestText hl hx
  rw [h] at hread
  exact reads_unique hl.some hread (reads_shortestText hl hy)

/-- No number has an empty text. -/
theorem shortestText_ne_empty (hl : Coarse style.layout) (hx : style.Covers x) : shortestText style x ≠ "" := by
  intro h
  have hread := reads_shortestText hl hx
  rw [h] at hread
  have hinf : Reads style.layout x false none := hread
  cases hinf
  rw [shortestText_infinity] at h
  exact absurd h (by decide)

end

/-! ## Numbers of the formats -/

/-- The exact value of a double has at most 53 bits, on a step that is not finer than the finest. -/
theorem bounds_of_decode? {x : Float} {d : Binary.Dyadic} (h : decode? x = some d) : d.m < 2 ^ 53 ∧ -1074 ≤ d.q := by
  rcases exists_fields x with hx | ⟨e, f, he, hf, hv, hx⟩
  · rw [hx] at h
    cases h
  · by_cases hmax : e = 2047
    · rw [hx, hv hmax, hmax, ← infinity, decode?_infinity] at h
      cases h
    · rw [hx, decode?_ofFields (by omega) hf] at h
      obtain rfl := Option.some.inj h
      split
      · dsimp only
        omega
      · dsimp only
        omega

/-- Every double is rounded to itself. -/
theorem covers_double {x : Float} (h : x.isNaN = false) : doubles.Covers x := by
  refine ⟨h, fun d hd hm => ?_⟩
  obtain ⟨hlt, hq⟩ := bounds_of_decode? hd
  have hlog : d.m.log2 < 53 := (Nat.log2_lt hm).mpr hlt
  have hround : roundTo double d = d := if_pos (max_le hq (by show d.q + d.m.log2 + 1 - 53 ≤ d.q; omega))
  exact ⟨d.m, d.q, hround, hm, hlt, hq, encode_of_decode? hd⟩

/-- A number that is rounded to single precision is rounded to itself from then on. -/
theorem covers_single {x : Float} (h : x.isNaN = false) : singles.Covers (toSingle x) := by
  cases hx : decode? x with
  | none =>
    rw [toSingle_of_none hx]
    refine ⟨h, fun d hd => ?_⟩
    rw [hx] at hd
    cases hd
  | some d =>
    have hround := isSingle_roundTo d
    rw [toSingle_of_some hx]
    generalize roundTo single d = r at hround
    split
    · rename_i hrange
      by_cases hm : r.m = 0
      · have hzero : encode r = ofFields r.negative 0 0 := by rw [encode, if_pos hm]
        rw [hzero]
        refine ⟨isNaN_ofFields (by decide) (by decide) fun _ => rfl, fun e he hme => ?_⟩
        rw [decode?_ofFields (by decide) (by decide)] at he
        exact absurd (congrArg Dyadic.m (Option.some.inj he)).symm hme
      · obtain ⟨e, m, q, hdecode, hr, hz, hlt, hq, -, hencode⟩ := roundTo_encode hround hm hrange
        refine ⟨isNaN_of_decode? hdecode, fun d hd _ => ?_⟩
        obtain rfl := Option.some.inj (hdecode.symm.trans hd)
        have hnegative : e.negative = r.negative := by
          rw [← negative_roundTo, hr]
        exact ⟨m, q, hnegative ▸ hr, hz, hlt, hq, hnegative ▸ hencode⟩
    · exact ⟨isNaN_infinity _, fun d hd _ => by rw [decode?_infinity] at hd; cases hd⟩

end RecordForge.Decimal
