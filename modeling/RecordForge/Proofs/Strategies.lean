import RecordForge.Command.Validate
import RecordForge.Proofs.Chains

/-!
# What an accepted command says

`readStrategy` either refuses a command or gives a strategy that the field can follow. What "can
follow" means is `Strategy.Valid`: it is stated on the strategy alone, so the generators built from it
never have to look at the command again.

* `Descriptor.Holds`: the values that a field of a generated kind may have.
* `Strategy.Valid`: the modes, items and bounds that suit a kind.
* **`valid_of_readStrategy`**: whatever a grammar reads and the checks let pass is valid.

The checks rely on the grammar in two places: a mode is one of the grammar's modes
(`mode_mem_of_read?`), and the text of a scale has no sign (`scale_isDigit`).
-/

namespace RecordForge

open Calendar

/-! ## Values of a field -/

/-- The values that a field of a generated kind may have. -/
def Descriptor.Holds (d : Descriptor) (v : Value) : Prop :=
  match d.kind, v with
  | .int, .int n => Word.IsInt n
  | .long, .int n => Word.IsLong n
  | .float, .float _ => True
  | .double, .float _ => True
  | .string, .text _ => True
  | .enum, .text s => s ∈ d.symbols
  | _, _ => False

/-! ## Valid strategies -/

namespace Strategy

/-- A span of integers: a proper one, and in the mode `date` one of days. -/
structure IntegerSpan (s : Strategy) (lower upper : Int) : Prop where
  bounds : s.bounds = .integers lower upper
  least : Word.minLong ≤ lower
  proper : lower < upper
  greatest : upper ≤ Word.maxLong
  scale_pos : 1 ≤ s.scale
  scale_le : s.scale ≤ Word.maxInt
  dates : s.mode = .date →
    ∃ a b : Date, readStamp lower = .day a ∧ readStamp upper = .day b ∧ a.number < b.number

/-- A span of decimal numbers. -/
structure DecimalSpan (s : Strategy) (lower upper : Float) : Prop where
  bounds : s.bounds = .decimals lower upper
  lower_finite : lower.isFinite = true
  upper_finite : upper.isFinite = true
  proper : lower < upper
  precision_nonneg : 0 ≤ s.precision
  precision_le : s.precision ≤ Word.maxInt

/-- A span of lengths. -/
structure LengthSpan (s : Strategy) (lower upper : Int) : Prop where
  bounds : s.bounds = .integers lower upper
  nonneg : 0 ≤ lower
  proper : lower < upper
  greatest : upper ≤ Word.maxInt

/-- The items of a strategy suit a field, and there is at least one. -/
def ItemsFor (s : Strategy) (d : Descriptor) : Prop :=
  ∃ items, s.items = some items ∧ items ≠ [] ∧ ∀ v ∈ items, d.Holds v

/-- The modes of a kind. -/
def modesOf : Kind → List Mode
  | .int | .long => [.rand, .incr, .date]
  | .float | .double => [.rand, .gauss]
  | .string | .enum => [.rand, .incr]
  | _ => []

/-- What a strategy has to say for a field of a generated kind. -/
def Content (s : Strategy) (d : Descriptor) : Prop :=
  match d.kind with
  | .int | .long => s.ItemsFor d ∨ s.items = none ∧ ∃ lower upper, s.IntegerSpan lower upper
  | .float | .double => s.items = none ∧ ∃ lower upper, s.DecimalSpan lower upper
  | .string => s.ItemsFor d ∨ s.items = none ∧ ∃ lower upper, s.LengthSpan lower upper
  | .enum => s.ItemsFor d ∨ s.items = none
  | _ => False

/-- A strategy that a field can follow. -/
structure Valid (s : Strategy) (d : Descriptor) : Prop where
  mode : s.mode ∈ modesOf d.kind
  content : s.Content d

end Strategy

/-! ## Finite numbers -/

section Finite

open Float.Model

/-- Comparing two numbers the other way round. -/
theorem compare_swap (a b : UnpackedFloat) : b.compare a = (a.compare b).map Ordering.swap := by
  have grid (e f : Int) (m n : Nat) :
      (compare f e).then (compare n m) = ((compare e f).then (compare m n)).swap := by
    rw [Ordering.swap_then, ← Std.OrientedCmp.eq_swap, ← Std.OrientedCmp.eq_swap]
  rcases a with s | _ | s | ⟨s, m, e, hm⟩ <;> rcases b with t | _ | t | ⟨t, n, f, hn⟩ <;>
    (try cases s) <;> (try cases t) <;> try rfl
  -- only two finite numbers of one sign are compared by their fields
  · exact congrArg (fun o : Ordering => some o.swap) (grid e f m n)
  · exact congrArg some (grid e f m n)

theorem compare_isSome : {a b : UnpackedFloat} → a.isFinite = true → b.isFinite = true →
    (a.compare b).isSome = true
  | .zero s, .zero t, _, _ | .zero s, .finite t .., _, _ | .finite s .., .zero t, _, _
  | .finite s .., .finite t .., _, _ => by cases s <;> cases t <;> rfl
  | .infinity _, _, h, _ | .notANumber, _, h, _ => nomatch h
  | _, .infinity _, _, h | _, .notANumber, _, h => nomatch h

/-- Of two finite numbers the one that is not at most the other is greater. -/
theorem float_lt_of_not_le {x y : Float} (hx : x.isFinite = true) (hy : y.isFinite = true)
    (h : ¬y ≤ x) : x < y := by
  have hsome := compare_isSome (a := x.toModel.unpack) (b := y.toModel.unpack) hx hy
  have hle : y.toModel.unpack.le x.toModel.unpack ≠ true :=
    fun hle => h (decide_eq_true_iff.mpr hle)
  refine decide_eq_true_iff.mpr (show x.toModel.unpack.lt y.toModel.unpack = true from ?_)
  obtain ⟨o, ho⟩ := Option.isSome_iff_exists.mp hsome
  rw [UnpackedFloat.le, compare_swap, ho] at hle
  rw [UnpackedFloat.lt, ho]
  cases o <;> simp_all

end Finite

namespace Command

/-! ## What a grammar reads -/

/-- A command is read with a mode and what follows it, or as clauses alone. -/
theorem read?_cases {g : Grammar} {s : List Char} {p : Parts} (h : g.read? s = some p) :
    (∃ m rest, g.mode? s = some (m, rest) ∧ p.mode = some m ∧
      readClauses g.clauses rest = some p.operands) ∨
    (p.mode = none ∧ readClauses g.clauses s = some p.operands) := by
  simp only [Grammar.read?] at h
  split at h
  · rename_i q hq
    obtain rfl := Option.some.inj h
    obtain ⟨⟨m, rest⟩, hmode, hq⟩ := Option.bind_eq_some_iff.mp hq
    obtain ⟨ops, hops, rfl⟩ := Option.map_eq_some_iff.mp hq
    exact Or.inl ⟨m, rest, hmode, rfl, hops⟩
  · obtain ⟨ops, hops, rfl⟩ := Option.map_eq_some_iff.mp h
    exact Or.inr ⟨rfl, hops⟩

/-- A mode word that a text starts with is one of the grammar's. -/
theorem mem_modes_of_mode? {g : Grammar} {s rest : List Char} {m : Mode}
    (h : g.mode? s = some (m, rest)) : m ∈ g.modes := by
  obtain ⟨a, ha, hr⟩ := List.exists_of_findSome?_eq_some h
  obtain ⟨_, -, he⟩ := Option.map_eq_some_iff.mp hr
  obtain ⟨rfl, -⟩ := Prod.mk.inj he
  exact ha

/-- The mode of a command, `rand` when none is given, is one of the grammar's. -/
theorem mode_mem_of_read? {g : Grammar} {s : List Char} {p : Parts} (hr : Mode.rand ∈ g.modes)
    (h : g.read? s = some p) : p.mode.getD .rand ∈ g.modes := by
  rcases read?_cases h with ⟨m, rest, hm, hp, -⟩ | ⟨hp, -⟩
  · rw [hp]; exact mem_modes_of_mode? hm
  · rw [hp]; exact hr

/-- Every operand that is read was read by a clause about its part. -/
theorem clause_of_readClauses : ∀ {cs : List Clause} {s : List Char} {ops : List (Part × List Char)},
    readClauses cs s = some ops → ∀ e ∈ ops,
      ∃ c ∈ cs, c.part = e.1 ∧ ∃ t rest, c.operand.read? t = some (e.2, rest)
  | [], s, ops, h, e, he => by
    simp only [readClauses] at h
    split at h
    · obtain rfl := Option.some.inj h
      exact absurd he List.not_mem_nil
    · exact absurd h nofun
  | c :: cs, s, ops, h, e, he => by
    simp only [readClauses] at h
    split at h
    · rename_i x rest hc
      obtain ⟨ops', hops, rfl⟩ := Option.map_eq_some_iff.mp h
      rcases List.mem_cons.mp he with rfl | he
      · obtain ⟨t, -, ht⟩ := Option.bind_eq_some_iff.mp hc
        exact ⟨c, List.mem_cons_self, rfl, t, rest, ht⟩
      · obtain ⟨c', hc', hp⟩ := clause_of_readClauses hops e he
        exact ⟨c', List.mem_cons_of_mem c hc', hp⟩
    · obtain ⟨c', hc', hp⟩ := clause_of_readClauses h e he
      exact ⟨c', List.mem_cons_of_mem c hc', hp⟩

/-- The operand of a part was read by a clause of the grammar about it. -/
theorem clause_of_read? {g : Grammar} {s : List Char} {p : Parts} {part : Part} {x : List Char}
    (h : g.read? s = some p) (hx : p.operand? part = some x) :
    ∃ c ∈ g.clauses, c.part = part ∧ ∃ t rest, c.operand.read? t = some (x, rest) := by
  have hmem : (part, x) ∈ p.operands := by
    unfold Parts.operand? at hx
    obtain ⟨l₁, l₂, hl, -⟩ := List.lookup_eq_some_iff.mp hx
    rw [hl]
    exact List.mem_append_right _ List.mem_cons_self
  rcases read?_cases h with ⟨m, rest, -, -, hops⟩ | ⟨-, hops⟩
  · exact clause_of_readClauses hops _ hmem
  · exact clause_of_readClauses hops _ hmem

/-- The text of a natural operand consists of digits. -/
theorem isDigit_of_natural {t x rest : List Char} (h : Operand.natural.read? t = some (x, rest)) :
    ∀ c ∈ x, Text.isDigit c = true := by
  simp only [Operand.read?, natural?] at h
  split at h
  · exact absurd h nofun
  · obtain ⟨rfl, -⟩ := Prod.mk.inj (Option.some.inj h)
    exact fun c hc => (List.all_eq_true.mp List.all_takeWhile) c hc

/-- The text of a scale consists of digits. -/
theorem scale_isDigit {s : List Char} {p : Parts} {x : List Char}
    (h : integerGrammar.read? s = some p) (hx : p.operand? .scale = some x) :
    ∀ c ∈ x, Text.isDigit c = true := by
  obtain ⟨c, hc, hpart, t, rest, ht⟩ := clause_of_read? h hx
  simp only [integerGrammar, List.mem_cons, List.not_mem_nil, or_false] at hc
  rcases hc with rfl | rfl | rfl | rfl
  · exact absurd hpart nofun
  · exact absurd hpart nofun
  · exact isDigit_of_natural ht
  · exact absurd hpart nofun

/-! ## What an operand stands for -/

/-- The padding of a text is dropped, nothing else is changed. -/
theorem mem_of_mem_stripPadding {s : List Char} {c : Char} (h : c ∈ Numeral.stripPadding s) :
    c ∈ s := by
  unfold Numeral.stripPadding at h
  have h₁ := (List.dropWhile_suffix _).subset (List.mem_reverse.mp h)
  exact (List.dropWhile_suffix _).subset (List.mem_reverse.mp h₁)

/-- Only a text with a minus sign in it spells a negative integer. -/
theorem nonneg_of_integer? {x : List Char} {n : Int} (hx : ∀ c ∈ x, Text.isDigit c = true)
    (h : Numeral.integer? x = .ok n) : 0 ≤ n := by
  have hsign : (Numeral.sign (Numeral.stripPadding x)).1 = false := by
    unfold Numeral.sign
    split
    · rename_i s hs
      have := hx '-' (mem_of_mem_stripPadding (by rw [hs]; exact List.mem_cons_self))
      exact absurd this (by decide)
    · rfl
    · rfl
  simp only [Numeral.integer?, hsign, Bool.false_eq_true, if_false] at h
  split at h
  · exact absurd h nofun
  split at h
  · exact absurd h nofun
  split at h
  · exact absurd h nofun
  obtain rfl := Except.ok.inj h
  omega

/-- An integer operand lies between its bounds and is what its text spells. -/
theorem integerOperand_ok {keyword : String} {low high n : Int} {x : List Char}
    (h : integerOperand keyword low high x = .ok n) :
    Numeral.integer? x = .ok n ∧ low ≤ n ∧ n ≤ high := by
  unfold integerOperand within? at h
  cases hx : Numeral.integer? x with
  | error e => rw [hx] at h; exact absurd h nofun
  | ok m =>
    rw [hx] at h
    simp only at h
    split at h
    · exact absurd h nofun
    · exact absurd h nofun
    · rename_i k hk
      obtain rfl := Except.ok.inj h
      have hk := Except.ok.inj hk
      split at hk
      · rename_i hb
        obtain rfl := Option.some.inj hk
        exact ⟨rfl, hb⟩
      · exact absurd hk nofun

/-- An optional operand lies between its bounds if what counts without it does. -/
theorem integerOr_ok {default low high n : Int} {keyword : String} {x : Option (List Char)}
    (hd : low ≤ default ∧ default ≤ high) (h : integerOr default keyword low high x = .ok n) :
    low ≤ n ∧ n ≤ high := by
  cases x with
  | none => obtain rfl := Except.ok.inj h; exact hd
  | some x => exact (integerOperand_ok h).2

/-- An optional decimal operand is finite if what counts without it is. -/
theorem decimalOr_ok {default x : Float} {keyword : String} {text : Option (List Char)}
    (hd : default.isFinite = true) (h : decimalOr default keyword text = .ok x) :
    x.isFinite = true := by
  cases text with
  | none => obtain rfl := Except.ok.inj h; exact hd
  | some text =>
    simp only [decimalOr, finite?] at h
    cases hr : Numeral.real? text with
    | none => rw [hr] at h; exact absurd h nofun
    | some y =>
      by_cases hy : y.isFinite = true
      · simp only [hr, hy, if_true] at h
        obtain rfl := Except.ok.inj h
        exact hy
      · simp only [hr, hy] at h
        exact absurd h nofun

/-- The items of a set of integers lie between their bounds, one for each text. -/
theorem integerItems_ok {low high : Int} : ∀ {texts : List (List Char)} {vs : List Value},
    integerItems low high texts = .ok vs →
      vs.length = texts.length ∧ ∀ v ∈ vs, ∃ n, v = .int n ∧ low ≤ n ∧ n ≤ high
  | [], vs, h => by
    obtain rfl := Except.ok.inj h
    exact ⟨rfl, fun v hv => absurd hv List.not_mem_nil⟩
  | text :: rest, vs, h => by
    simp only [integerItems, bind_eq_ok] at h
    obtain ⟨n, hn, more, hm, hvs⟩ := h
    obtain rfl := Except.ok.inj hvs
    obtain ⟨hlen, hmore⟩ := integerItems_ok hm
    refine ⟨by rw [List.length_cons, List.length_cons, hlen], fun v hv => ?_⟩
    rcases List.mem_cons.mp hv with rfl | hv
    · exact ⟨n, rfl, (integerOperand_ok hn).2⟩
    · exact hmore v hv

/-- A text has at least one item. -/
theorem items_ne_nil (s : List Char) : Text.items s ≠ [] := by
  have hlen := Text.length_pieces s
  unfold Text.items
  split
  · rename_i hp
    rw [hp] at hlen
    exact absurd hlen (by simp)
  · exact List.cons_ne_nil _ _

theorem textItems_ne_nil (s : List Char) : textItems s ≠ [] :=
  fun h => items_ne_nil s (List.map_eq_nil_iff.mp h)

/-- The bounds of a span of days are days, the first one earlier. -/
theorem checkDates_ok {p : Parts} {lower upper : Int} (h : checkDates p lower upper = .ok ()) :
    ∃ a b : Date, readStamp lower = .day a ∧ readStamp upper = .day b ∧ a.number < b.number := by
  unfold checkDates at h
  split at h
  · exact absurd h nofun
  split at h
  · exact absurd h nofun
  split at h
  · exact absurd h nofun
  · rename_i a b hl hb
    split at h
    · exact absurd h nofun
    · rename_i hd
      unfold Date.daysTo at hd
      exact ⟨a, b, hl, hb, by omega⟩
  · exact absurd h nofun

/-! ## Accepted commands -/

/-- Both bounds of an integer kind are 64-bit words. -/
theorem range_isLong (kind : Kind) :
    Word.minLong ≤ (range kind).2 ∧ (range kind).2 ≤ Word.maxLong := by
  unfold range
  split <;> decide

/-- A command for an integer field. -/
theorem integerStrategy_content {kind : Kind} {p : Parts} {s : Strategy}
    (hscale : ∀ x, p.operand? .scale = some x → ∀ c ∈ x, Text.isDigit c = true)
    (h : integerStrategy kind p = .ok s) :
    s.mode = p.mode.getD .rand ∧
      ((∃ items, s.items = some items ∧ items ≠ [] ∧
        ∀ v ∈ items, ∃ n, v = .int n ∧ (range kind).1 ≤ n ∧ n ≤ (range kind).2) ∨
      s.items = none ∧ ∃ lower upper, s.IntegerSpan lower upper) := by
  unfold integerStrategy at h
  simp only at h
  split at h
  · rename_i text _
    obtain ⟨items, hitems, hs⟩ := bind_eq_ok.mp h
    obtain rfl := Except.ok.inj hs
    obtain ⟨hlen, hrange⟩ := integerItems_ok hitems
    refine ⟨rfl, Or.inl ⟨items, rfl, fun he => items_ne_nil text ?_, hrange⟩⟩
    rw [he] at hlen
    exact List.length_eq_zero_iff.mp hlen.symm
  · obtain ⟨lower, hlower, h⟩ := bind_eq_ok.mp h
    obtain ⟨upper, hupper, h⟩ := bind_eq_ok.mp h
    obtain ⟨scale, hsc, h⟩ := bind_eq_ok.mp h
    have hl := integerOr_ok (by decide) hlower
    have hu := integerOr_ok (range_isLong kind) hupper
    have hk := integerOr_ok (by decide) hsc
    -- a scale is written without a sign, so the check for zero leaves the positive ones
    have hnonneg : 0 ≤ scale := by
      cases hx : p.operand? .scale with
      | none => rw [hx] at hsc; obtain rfl := Except.ok.inj hsc; decide
      | some x =>
        rw [hx] at hsc
        exact nonneg_of_integer? (hscale x hx) (integerOperand_ok hsc).1
    split at h
    · exact absurd h nofun
    rename_i hproper
    split at h
    · exact absurd h nofun
    rename_i hzero
    have hspan (hdates : p.mode.getD .rand = .date → ∃ a b : Date,
        readStamp lower = .day a ∧ readStamp upper = .day b ∧ a.number < b.number) :
        Strategy.IntegerSpan { mode := p.mode.getD .rand, bounds := .integers lower upper, scale }
          lower upper :=
      ⟨rfl, hl.1, by omega, hu.2, by simp only; omega, hk.2, hdates⟩
    split at h
    · obtain ⟨_, hc, hs⟩ := bind_eq_ok.mp h
      obtain rfl := Except.ok.inj hs
      exact ⟨rfl, Or.inr ⟨rfl, lower, upper, hspan fun _ => checkDates_ok hc⟩⟩
    · rename_i hdate
      obtain rfl := Except.ok.inj h
      exact ⟨rfl, Or.inr ⟨rfl, lower, upper, hspan fun hd => absurd hd hdate⟩⟩

/-- A command for a floating-point field. -/
theorem decimalStrategy_content {kind : Kind} {p : Parts} {s : Strategy}
    (h : decimalStrategy kind p = .ok s) :
    s.mode = p.mode.getD .rand ∧ s.items = none ∧ ∃ lower upper, s.DecimalSpan lower upper := by
  unfold decimalStrategy at h
  simp only at h
  obtain ⟨lower, hlower, h⟩ := bind_eq_ok.mp h
  obtain ⟨upper, hupper, h⟩ := bind_eq_ok.mp h
  obtain ⟨precision, hprec, h⟩ := bind_eq_ok.mp h
  have hl := decimalOr_ok (by decide) hlower
  have hu := decimalOr_ok (by split <;> decide) hupper
  have hp := integerOr_ok (by decide) hprec
  split at h
  · exact absurd h nofun
  rename_i hproper
  obtain rfl := Except.ok.inj h
  exact ⟨rfl, rfl, lower, upper, rfl, hl, hu, float_lt_of_not_le hl hu hproper, hp.1, hp.2⟩

/-- A command for a string field. -/
theorem stringStrategy_content {p : Parts} {s : Strategy} (h : stringStrategy p = .ok s) :
    s.mode = p.mode.getD .rand ∧
      ((∃ items, s.items = some items ∧ items ≠ [] ∧ ∀ v ∈ items, ∃ t, v = .text t) ∨
      s.items = none ∧ ∃ lower upper, s.LengthSpan lower upper) := by
  unfold stringStrategy at h
  simp only at h
  split at h
  · rename_i text _
    obtain rfl := Except.ok.inj h
    refine ⟨rfl, Or.inl ⟨_, rfl, fun he => textItems_ne_nil text (List.map_eq_nil_iff.mp he), ?_⟩⟩
    intro v hv
    obtain ⟨t, -, rfl⟩ := List.mem_map.mp hv
    exact ⟨t, rfl⟩
  · obtain ⟨lower, hlower, h⟩ := bind_eq_ok.mp h
    obtain ⟨upper, hupper, h⟩ := bind_eq_ok.mp h
    have hl := integerOr_ok (by decide) hlower
    have hu := integerOr_ok (by decide) hupper
    split at h
    · exact absurd h nofun
    rename_i hproper
    obtain rfl := Except.ok.inj h
    exact ⟨rfl, Or.inr ⟨rfl, lower, upper, rfl, hl.1, by omega, hu.2⟩⟩

/-- A command for an enum field. -/
theorem enumStrategy_content {symbols : List String} {p : Parts} {s : Strategy}
    (h : enumStrategy symbols p = .ok s) :
    s.mode = p.mode.getD .rand ∧
      ((∃ items, s.items = some items ∧ items ≠ [] ∧
        ∀ v ∈ items, ∃ t ∈ symbols, v = .text t) ∨ s.items = none) := by
  unfold enumStrategy at h
  simp only at h
  split at h
  · obtain rfl := Except.ok.inj h
    exact ⟨rfl, Or.inr rfl⟩
  · rename_i text _
    split at h
    · rename_i hunknown
      obtain rfl := Except.ok.inj h
      refine ⟨rfl, Or.inl ⟨_, rfl, fun he => textItems_ne_nil text (List.map_eq_nil_iff.mp he), ?_⟩⟩
      intro v hv
      obtain ⟨t, ht, rfl⟩ := List.mem_map.mp hv
      refine ⟨t, ?_, rfl⟩
      have := List.filter_eq_nil_iff.mp (List.isEmpty_iff.mp hunknown) t (mem_firsts.mpr ht)
      simpa using this
    · exact absurd h nofun

/-- **A command that a grammar reads and the checks let pass says something that the field can
follow.** -/
theorem valid_of_readStrategy {g : Grammar} {d : Descriptor} {line : String} {s : Strategy}
    (hg : grammar? d.kind = some g) (h : readStrategy g d line = .ok s) : s.Valid d := by
  unfold readStrategy at h
  split at h
  · exact absurd h nofun
  rename_i p hp
  obtain ⟨name, kind, symbols, members, nullable⟩ := d
  cases kind with
  | int | long =>
    obtain rfl := Option.some.inj hg
    simp only [strategyOf, Kind.isInteger, if_true] at h
    obtain ⟨hm, hc⟩ := integerStrategy_content (fun x hx => scale_isDigit hp hx) h
    refine ⟨by rw [hm]; exact mode_mem_of_read? (by decide) hp, ?_⟩
    rcases hc with ⟨items, hi, hne, hv⟩ | hc
    · refine Or.inl ⟨items, hi, hne, fun v hvi => ?_⟩
      obtain ⟨n, rfl, hn⟩ := hv v hvi
      exact hn
    · exact Or.inr hc
  | float | double =>
    obtain rfl := Option.some.inj hg
    change decimalStrategy _ p = .ok s at h
    obtain ⟨hm, hc⟩ := decimalStrategy_content h
    exact ⟨by rw [hm]; exact mode_mem_of_read? (by decide) hp, hc⟩
  | string =>
    obtain rfl := Option.some.inj hg
    change stringStrategy p = .ok s at h
    obtain ⟨hm, hc⟩ := stringStrategy_content h
    refine ⟨by rw [hm]; exact mode_mem_of_read? (by decide) hp, ?_⟩
    rcases hc with ⟨items, hi, hne, hv⟩ | hc
    · refine Or.inl ⟨items, hi, hne, fun v hvi => ?_⟩
      obtain ⟨t, rfl⟩ := hv v hvi
      trivial
    · exact Or.inr hc
  | enum =>
    obtain rfl := Option.some.inj hg
    change enumStrategy _ p = .ok s at h
    obtain ⟨hm, hc⟩ := enumStrategy_content h
    refine ⟨by rw [hm]; exact mode_mem_of_read? (by decide) hp, ?_⟩
    rcases hc with ⟨items, hi, hne, hv⟩ | hc
    · refine Or.inl ⟨items, hi, hne, fun v hvi => ?_⟩
      obtain ⟨t, ht, rfl⟩ := hv v hvi
      exact ht
    · exact Or.inr hc
  | _ => exact absurd hg nofun

end Command

end RecordForge
