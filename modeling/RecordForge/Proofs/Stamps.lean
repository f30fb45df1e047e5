import RecordForge.Dialog.Strategy
import RecordForge.Proofs.Days
import RecordForge.Proofs.Names

/-!
# Days as they are written

A bound of a span of days is an integer, and what is written of it is cut into a year, two digits for the month and
two for the day. The digits are those of a day exactly if the integer is its stamp, so that bounds are in the order
of their days.

* `numberOf_append`, `numberOf_lt`, `numberOf_cut`: the number of a text in digits, and of what it is cut into.
* `sliced`, `readStamp_eq_sliced`: an integer is read as what its text is cut into.
* `padded`, `Date.written`: a day in eight digits; `numberOf_written`, `numeral_toStamp`.
* `readStamp_eq_day_iff_written`: which texts are read as days.
* `Date.Before`, `toStamp_lt_iff_before`: the order of days by year, month and day of the month.
* `Spares`, `spares_strategyOf`: a command is not refused for a span that is too short; `ask_spares`.
* **`stamps_follow_days`**: bounds and days correspond in order.
-/

namespace RecordForge

open Text Decimal Calendar

/-! ## Numbers of texts -/

namespace Text

variable {s t : List Char}

theorem numberOf_append (s : List Char) (ht : ∀ c ∈ t, isDigit c = true) :
    numberOf (s ++ t) = numberOf s * 10 ^ t.length + numberOf t := by
  have hvalues : numberOf (s ++ t) = ofDigits (values s ++ values t) := congrArg ofDigits (values_append s t)
  rw [hvalues, ofDigits_append, length_values ht]
  rfl

/-- A text has no more digits than its number says. -/
theorem numberOf_lt : ∀ {s : List Char}, (∀ c ∈ s, isDigit c = true) → numberOf s < 10 ^ s.length
  | [], _ => Nat.zero_lt_one
  | c :: s, h => by
    obtain ⟨hc, hs⟩ := List.forall_mem_cons.mp h
    obtain ⟨d, hd⟩ := Option.isSome_iff_exists.mp hc
    have hdigit : numberOf [c] = d := by simp [numberOf, hd, ofDigits]
    have hlt := digit?_lt hd
    have ih := numberOf_lt hs
    rw [← List.singleton_append, numberOf_append [c] hs, hdigit, List.singleton_append, List.length_cons, Nat.pow_succ]
    calc d * 10 ^ s.length + numberOf s < d * 10 ^ s.length + 10 ^ s.length := Nat.add_lt_add_left ih _
      _ = (d + 1) * 10 ^ s.length := (Nat.succ_mul _ _).symm
      _ ≤ 10 * 10 ^ s.length := Nat.mul_le_mul_right _ hlt
      _ = 10 ^ s.length * 10 := Nat.mul_comm _ _

/-- **A text that is cut before its last digits** has a quotient before them and a remainder in them. -/
theorem numberOf_cut (hs : ∀ c ∈ s, isDigit c = true) {k : Nat} (hk : k ≤ s.length) :
    numberOf (s.take (s.length - k)) = numberOf s / 10 ^ k ∧
      numberOf (s.drop (s.length - k)) = numberOf s % 10 ^ k := by
  have hlast : ∀ c ∈ s.drop (s.length - k), isDigit c = true := fun c hc => hs c (List.mem_of_mem_drop hc)
  have hlength : (s.drop (s.length - k)).length = k := by
    rw [List.length_drop]
    omega
  have hlt := numberOf_lt hlast
  have hsplit := numberOf_append (s.take (s.length - k)) hlast
  rw [List.take_append_drop, hlength, Nat.mul_comm] at hsplit
  rw [hlength] at hlt
  rw [hsplit, Nat.mul_add_div (Nat.pow_pos (by decide)), Nat.mul_add_mod, Nat.div_eq_of_lt hlt, Nat.mod_eq_of_lt hlt]
  exact ⟨rfl, rfl⟩

/-- A text that is cut into a year, two digits for the month and two for the day. -/
theorem numberOf_slices (hs : ∀ c ∈ s, isDigit c = true) (hlength : 4 ≤ s.length) :
    numberOf (s.take (s.length - 4)) = numberOf s / 10000 ∧
      numberOf ((s.drop (s.length - 4)).take 2) = numberOf s / 100 % 100 ∧
      numberOf (s.drop (s.length - 2)) = numberOf s % 100 := by
  obtain ⟨hyear, hrest⟩ := numberOf_cut hs hlength
  obtain ⟨-, hday⟩ := numberOf_cut hs (by omega : 2 ≤ s.length)
  have hfour : (s.drop (s.length - 4)).length = 4 := by
    rw [List.length_drop]
    omega
  obtain ⟨hmonth, -⟩ := numberOf_cut (s := s.drop (s.length - 4)) (k := 2)
    (fun c hc => hs c (List.mem_of_mem_drop hc)) (by omega)
  rw [hfour, hrest] at hmonth
  exact ⟨hyear, hmonth.trans (by omega), hday⟩

/-- What is written of a natural is in digits. -/
theorem isDigit_of_mem_digitsOf {n : Nat} {c : Char} (h : c ∈ digitsOf n) : isDigit c = true := by
  rw [isDigit, digit?_of_isDigit (isDigit_of_mem h)]
  rfl

theorem numberOf_digitsOf (n : Nat) : numberOf (digitsOf n) = n := ofDigits_digitsOf n

end Text

/-! ## Reading -/

/-- What a text stands for when it is cut into a year, two characters for the month and two for the day. It has to
have eight digits, or more, and nothing else. -/
def sliced (text : List Char) : Stamp :=
  if text.length < 8 ∨ ∃ c ∈ text, isDigit c = false then .none
  else
    let year := numberOf (text.take (text.length - 4))
    let month := numberOf ((text.drop (text.length - 4)).take 2)
    let day := numberOf (text.drop (text.length - 2))
    if yearReach < year then .outOfReach
    else match Date.of? year month day with
      | some d => .day d
      | Option.none => .none

/-- **An integer is read as what its text is cut into.** -/
theorem readStamp_eq_sliced (n : Int) : readStamp n = sliced (numeral n) := by
  by_cases hn : n < 0
  · have hminus : '-' ∈ numeral n := by
      rw [numeral_eq, if_pos hn]
      exact List.mem_cons_self
    rw [sliced, if_pos (.inr ⟨'-', hminus, by decide⟩), readStamp, if_pos (by omega)]
  · obtain ⟨m, rfl⟩ := Int.eq_ofNat_of_zero_le (Int.not_lt.mp hn)
    have htext : numeral m = digitsOf m := by rw [numeral_eq, if_neg hn]; rfl
    have hdigits : ∀ c ∈ digitsOf m, isDigit c = true := fun c => isDigit_of_mem_digitsOf
    have hlength : (digitsOf m).length < 8 ↔ m < 10000000 := by
      rw [Nat.lt_succ_iff]
      exact Nat.length_toDigits_le_iff (by decide) (by decide)
    rw [htext, sliced, readStamp]
    by_cases hshort : m < 10000000
    · rw [if_pos (by omega), if_pos (.inl (hlength.mpr hshort))]
    · have hlong : 8 ≤ (digitsOf m).length := Nat.not_lt.mp (mt hlength.mp hshort)
      have hall : ¬((digitsOf m).length < 8 ∨ ∃ c ∈ digitsOf m, isDigit c = false) := by
        rintro (h | ⟨c, hc, hno⟩)
        · omega
        · rw [hdigits c hc] at hno
          cases hno
      obtain ⟨hyear, hmonth, hday⟩ := numberOf_slices hdigits (by omega)
      rw [numberOf_digitsOf] at hyear hmonth hday
      rw [if_neg (by omega), if_neg hall]
      simp only [hyear, hmonth, hday]
      rfl

/-! ## Writing -/

/-- A natural in at least a number of digits. -/
def padded (width n : Nat) : List Char := List.replicate (width - (digitsOf n).length) '0' ++ digitsOf n

/-- A day in eight digits: four for the year, two for the month and two for the day of the month. -/
def Calendar.Date.written (d : Date) : List Char := padded 4 d.year ++ padded 2 d.month ++ padded 2 d.day

theorem isDigit_of_mem_padded {width n : Nat} : ∀ c ∈ padded width n, isDigit c = true :=
  List.forall_mem_append.mpr ⟨isDigit_of_mem_zeros, fun _ => isDigit_of_mem_digitsOf⟩

theorem numberOf_padded (width n : Nat) : numberOf (padded width n) = n := by
  have hzeros : numberOf (List.replicate (width - (digitsOf n).length) '0') = 0 :=
    (congrArg ofDigits (values_zeros _)).trans (ofDigits_zeros _)
  rw [padded, numberOf_append _ fun _ => isDigit_of_mem_digitsOf, hzeros, numberOf_digitsOf, Nat.zero_mul,
    Nat.zero_add]

theorem length_padded {width n : Nat} (hwidth : 0 < width) (hn : n < 10 ^ width) : (padded width n).length = width := by
  have hlength := length_digitsOf_le hwidth hn
  rw [padded, List.length_append, List.length_replicate]
  omega

/-- Two digits are one for the tens and one for the rest. -/
theorem padded_two {m : Nat} (hm : m < 100) : padded 2 m = digitsOf (m / 10) ++ digitsOf (m % 10) := by
  by_cases hsmall : m < 10
  · have hone : (digitsOf m).length = 1 := congrArg List.length (Nat.toDigits_of_lt_base hsmall)
    rw [padded, hone, Nat.div_eq_of_lt hsmall, Nat.mod_eq_of_lt hsmall]
    rfl
  · have htens : digitsOf (m / 10) ++ digitsOf (m % 10) = digitsOf (10 * (m / 10) + m % 10) :=
      Nat.toDigits_append_toDigits (by decide) (by omega) (by omega)
    rw [Nat.div_add_mod] at htens
    have htwo : (digitsOf m).length = 2 := by
      have htens' : (digitsOf (m / 10)).length = 1 := congrArg List.length (Nat.toDigits_of_lt_base (by omega))
      have hones : (digitsOf (m % 10)).length = 1 := congrArg List.length (Nat.toDigits_of_lt_base (by omega))
      rw [← htens, List.length_append, htens', hones]
    rw [htens, padded, htwo]
    rfl

/-- Two more digits stand for hundreds before them. -/
theorem digitsOf_hundreds {a m : Nat} (ha : 0 < a) (hm : m < 100) :
    digitsOf (a * 100 + m) = digitsOf a ++ padded 2 m := by
  have htens : digitsOf a ++ digitsOf (m / 10) = digitsOf (10 * a + m / 10) :=
    Nat.toDigits_append_toDigits (by decide) ha (by omega)
  have hones : digitsOf (10 * a + m / 10) ++ digitsOf (m % 10) = digitsOf (10 * (10 * a + m / 10) + m % 10) :=
    Nat.toDigits_append_toDigits (by decide) (by omega) (by omega)
  have hall : 10 * (10 * a + m / 10) + m % 10 = a * 100 + m := by omega
  rw [padded_two hm, ← List.append_assoc, htens, hones, hall]

namespace Calendar

variable {d : Date}

/-- A month and a day of it have two digits at most. -/
theorem Date.lt_hundred (d : Date) : d.month < 100 ∧ d.day < 100 := by
  obtain ⟨-, -, -, hm, -, hd⟩ := d.isDay
  have hlength := monthLength_le d.year d.month
  omega

/-- **The digits of a day spell its stamp.** -/
theorem numberOf_written (d : Date) : (numberOf d.written : Int) = d.toStamp := by
  obtain ⟨hmonth, hday⟩ := d.lt_hundred
  rw [Date.written, numberOf_append _ isDigit_of_mem_padded, numberOf_append _ isDigit_of_mem_padded,
    length_padded (by decide) hmonth, length_padded (by decide) hday, numberOf_padded, numberOf_padded,
    numberOf_padded]
  rfl

/-- **With four digits for the year, what is written of a stamp are the digits of its day.** -/
theorem numeral_toStamp (hyear : 1000 ≤ d.year) : numeral d.toStamp = d.written := by
  obtain ⟨hmonth, hday⟩ := d.lt_hundred
  have hfour : padded 4 d.year = digitsOf d.year := by
    have hlong : 4 ≤ (digitsOf d.year).length := by
      have hshort := (Nat.length_toDigits_le_iff (n := d.year) (b := 10) (k := 3) (by decide) (by decide)).mp
      rw [← digitsOf] at hshort
      omega
    rw [padded, Nat.sub_eq_zero_of_le hlong]
    rfl
  have hdigits : numeral d.toStamp = digitsOf ((d.year * 100 + d.month) * 100 + d.day) := by
    rw [numeral_eq, if_neg (Int.not_lt.mpr (toStamp_mem d).1)]
    rfl
  rw [hdigits, digitsOf_hundreds (by omega) hday, digitsOf_hundreds (by omega) hmonth, Date.written, hfour]

/-- **An integer is read as a day exactly if what is written of it are the digits of this day**, with a year that
has four digits of its own. -/
theorem readStamp_eq_day_iff_written {n : Int} : readStamp n = .day d ↔ 1000 ≤ d.year ∧ numeral n = d.written := by
  constructor
  · intro h
    obtain ⟨rfl, hyear⟩ := readStamp_eq_day_iff.mp h
    exact ⟨hyear, numeral_toStamp hyear⟩
  · rintro ⟨hyear, hn⟩
    rw [readStamp_eq_sliced, hn, ← numeral_toStamp hyear, ← readStamp_eq_sliced]
    exact readStamp_eq_day_iff.mpr ⟨rfl, hyear⟩

/-! ## Order -/

/-- A day comes before another one: in an earlier year, or in an earlier month of the year, or earlier in the
month. -/
def Date.Before (a b : Date) : Prop :=
  a.year < b.year ∨ a.year = b.year ∧ (a.month < b.month ∨ a.month = b.month ∧ a.day < b.day)

theorem toStamp_lt_iff_before {a b : Date} : a.toStamp < b.toStamp ↔ a.Before b := by
  obtain ⟨hmonth, hday⟩ := a.lt_hundred
  obtain ⟨hmonth', hday'⟩ := b.lt_hundred
  simp only [Date.toStamp, Date.Before]
  omega

end Calendar

/-! ## The span of two days -/

namespace Command

/-- A step does not complain about a span that is too short. -/
def Spares {α : Type} (r : Except Refusal α) : Prop := r ≠ .error (.complaint .shortSpan)

section

variable {α β : Type} {r : Except Refusal α}

theorem spares_ok (a : α) : Spares (.ok a : Except Refusal α) := nofun

theorem spares_defect (e : Defect) : Spares (.error (.defect e) : Except Refusal α) := nofun

theorem spares_operand (keyword : String) : Spares (.error (.complaint (.operand keyword)) : Except Refusal α) := nofun

theorem Spares.bind {f : α → Except Refusal β} (hr : Spares r) (hf : ∀ a, r = .ok a → Spares (f a)) :
    Spares (r >>= f) := by
  cases r with
  | ok a => exact hf a rfl
  | error e => exact fun h => hr (congrArg Except.error (Except.error.inj h))

end

theorem spares_integerOperand (keyword : String) (low high : Int) (text : List Char) :
    Spares (integerOperand keyword low high text) := by
  rw [integerOperand]
  rcases within? low high text with e | - | n
  · exact spares_defect e
  · exact spares_operand keyword
  · exact spares_ok n

theorem spares_integerOr (default : Int) (keyword : String) (low high : Int) (x : Option (List Char)) :
    Spares (integerOr default keyword low high x) := by
  cases x with
  | none => exact spares_ok default
  | some text => exact spares_integerOperand keyword low high text

theorem spares_decimalOr (default : Float) (keyword : String) (x : Option (List Char)) :
    Spares (decimalOr default keyword x) := by
  cases x with
  | none => exact spares_ok default
  | some text =>
    rw [decimalOr]
    rcases finite? text with e | - | x
    · exact spares_defect e
    · exact spares_operand keyword
    · exact spares_ok x

theorem spares_integerItems (low high : Int) : ∀ texts, Spares (integerItems low high texts)
  | [] => spares_ok []
  | text :: rest => by
    rw [integerItems]
    refine (spares_integerOperand "in" low high text).bind fun n _ => ?_
    exact (spares_integerItems low high rest).bind fun more _ => spares_ok _

/-- **Two days are at least one day apart where their bounds are in order.** -/
theorem spares_checkDates (p : Parts) {lower upper : Int} (hlt : lower < upper) : Spares (checkDates p lower upper) := by
  rw [checkDates]
  split
  · nofun
  · split
    · nofun
    · split
      · nofun
      · rename_i a b hlower hupper
        obtain ⟨rfl, -⟩ := readStamp_eq_day_iff.mp hlower
        obtain ⟨rfl, -⟩ := readStamp_eq_day_iff.mp hupper
        have hdays := number_lt_of_toStamp_lt hlt
        rw [if_neg (by rw [Date.daysTo]; omega)]
        exact spares_ok ()
      · nofun

theorem spares_integerStrategy (kind : Kind) (p : Parts) : Spares (integerStrategy kind p) := by
  rw [integerStrategy]
  cases p.operand? .items with
  | some text => exact (spares_integerItems _ _ _).bind fun items _ => spares_ok _
  | none =>
    refine (spares_integerOr _ _ _ _ _).bind fun lower _ => ?_
    refine (spares_integerOr _ _ _ _ _).bind fun upper _ => ?_
    refine (spares_integerOr _ _ _ _ _).bind fun scale _ => ?_
    dsimp only
    split
    · nofun
    · rename_i hproper
      split
      · nofun
      · split
        · exact (spares_checkDates p (Int.not_le.mp hproper)).bind fun _ _ => spares_ok _
        · exact spares_ok _

theorem spares_decimalStrategy (kind : Kind) (p : Parts) : Spares (decimalStrategy kind p) := by
  rw [decimalStrategy]
  refine (spares_decimalOr _ _ _).bind fun lower _ => ?_
  refine (spares_decimalOr _ _ _).bind fun upper _ => ?_
  refine (spares_integerOr _ _ _ _ _).bind fun precision _ => ?_
  dsimp only
  split <;> nofun

theorem spares_stringStrategy (p : Parts) : Spares (stringStrategy p) := by
  rw [stringStrategy]
  cases p.operand? .items with
  | some text => exact spares_ok _
  | none =>
    refine (spares_integerOr _ _ _ _ _).bind fun lower _ => ?_
    refine (spares_integerOr _ _ _ _ _).bind fun upper _ => ?_
    dsimp only
    split <;> nofun

theorem spares_enumStrategy (symbols : List String) (p : Parts) : Spares (enumStrategy symbols p) := by
  rw [enumStrategy]
  cases p.operand? .items with
  | none => exact spares_ok _
  | some text =>
    dsimp only
    split <;> nofun

/-- **No command is refused for a span that is too short**: its bounds would not be in order. -/
theorem spares_strategyOf (d : Descriptor) (p : Parts) : Spares (strategyOf d p) := by
  rw [strategyOf]
  split
  · exact spares_integerStrategy d.kind p
  · split
    · exact spares_decimalStrategy d.kind p
    · split
      · exact spares_stringStrategy p
      · exact spares_enumStrategy d.symbols p

theorem spares_readStrategy (g : Grammar) (d : Descriptor) (line : String) : Spares (readStrategy g d line) := by
  rw [readStrategy]
  split
  · nofun
  · exact spares_strategyOf d _

/-! ### Texts of complaints -/

theorem head?_append {s : String} {c : Char} (h : s.toList.head? = some c) (t : String) :
    (s ++ t).toList.head? = some c := by
  rw [String.toList_append, List.head?_append, h]
  rfl

/-- The text of every other complaint begins with another letter. -/
theorem head?_message {c : Complaint} (hc : c ≠ .shortSpan) : ∃ x ≠ 'D', c.message.toList.head? = some x := by
  cases c with
  | shortSpan => exact absurd rfl hc
  | unreadable => exact ⟨'C', by decide, head?_append rfl _⟩
  | operand => exact ⟨'C', by decide, head?_append (head?_append (head?_append rfl _) _) _⟩
  | emptySpan =>
    exact ⟨'I', by decide, head?_append (head?_append (head?_append (head?_append (head?_append rfl _) _) _) _) _⟩
  | zeroScale => exact ⟨'I', by decide, head?_append rfl _⟩
  | missingDates => exact ⟨'S', by decide, head?_append rfl _⟩
  | notDates => exact ⟨'C', by decide, head?_append rfl _⟩
  | unknownSymbols => exact ⟨'P', by decide, head?_append (head?_append (head?_append rfl _) _) _⟩

theorem message_ne_shortSpan {c : Complaint} (hc : c ≠ .shortSpan) : c.message ≠ Complaint.shortSpan.message := by
  intro h
  obtain ⟨x, hx, hhead⟩ := head?_message hc
  rw [h] at hhead
  exact hx (Option.some.inj hhead).symm

end Command

namespace Dialog

open Command

/-- A question does not report what none of its answers is refused for. -/
theorem ask_spares {α : Type} {judge : String → Verdict α} {text : String} (h : ∀ line, judge line ≠ .reject text)
    (prompt : String) : ∀ (answers : List String) (events : List Event),
      ∃ said, (askFrom prompt judge answers events).2.events = events ++ said ∧ .diagnostic text ∉ said
  | [], events => ⟨[.prompt prompt], rfl, by simp⟩
  | a :: rest, events => by
    rw [askFrom]
    cases hjudge : judge (trimmed a) with
    | accept x => exact ⟨[.prompt prompt], rfl, by simp⟩
    | abort e => exact ⟨[.prompt prompt], rfl, by simp⟩
    | explain help =>
      obtain ⟨said, hevents, hsaid⟩ := ask_spares h prompt rest (events ++ [.prompt prompt, .notice help])
      exact ⟨_, by rw [hevents, List.append_assoc], by simpa using hsaid⟩
    | reject other =>
      have hne : text ≠ other := fun heq => h (trimmed a) (by rw [hjudge, heq])
      obtain ⟨said, hevents, hsaid⟩ := ask_spares h prompt rest (events ++ [.prompt prompt, .diagnostic other])
      exact ⟨_, by rw [hevents, List.append_assoc], by simpa [hne] using hsaid⟩

/-- **A dialog about a strategy does not report a span that is too short**, whatever the answers are. -/
theorem askStrategy_spares (name : String) (d : Descriptor) (s : Session) :
    ∃ said, ((askStrategy name d).run s).2.events = s.events ++ said ∧
      .diagnostic Complaint.shortSpan.message ∉ said := by
  unfold askStrategy
  split
  · exact ⟨[], (List.append_nil _).symm, List.not_mem_nil⟩
  · rename_i g _
    refine ask_spares (fun line => ?_) _ s.answers s.events
    rw [judgeStrategy]
    split
    · nofun
    · split
      · nofun
      · rename_i c hread
        have hspared := spares_readStrategy g d line
        rw [hread] at hspared
        intro hreject
        exact message_ne_shortSpan (fun hc => hspared (by rw [hc])) (Verdict.reject.inj hreject)
      · nofun

end Dialog

/-- **Bounds and days correspond in order.** An integer is read as what its text is cut into. It gives a day exactly if
its text is this day in eight digits and the year has four digits of its own; the stamp of the day is then the
integer again. The digits of every day spell its stamp, and with such a year the stamp gives the day again. Of two
integers that give days, the lesser one is that of the earlier day, and then the second day is at least one day after
the first. So a dialog about a strategy does not report that a span is too short, for any field and whatever the
answers are. -/
theorem stamps_follow_days :
    (∀ n, readStamp n = sliced (numeral n)) ∧
    (∀ n d, readStamp n = .day d ↔ 1000 ≤ d.year ∧ numeral n = d.written) ∧
    (∀ n d, readStamp n = .day d → d.toStamp = n) ∧
    (∀ d : Date, (numberOf d.written : Int) = d.toStamp ∧ (1000 ≤ d.year → readStamp d.toStamp = .day d)) ∧
    (∀ v w a b, readStamp v = .day a → readStamp w = .day b →
      (v < w ↔ a.Before b) ∧ (v < w ↔ 1 ≤ a.daysTo b)) ∧
    ∀ name d s, ∃ said, ((Dialog.askStrategy name d).run s).2.events = s.events ++ said ∧
      .diagnostic "Date span must be at least 1 day." ∉ said := by
  refine ⟨readStamp_eq_sliced, fun n d => readStamp_eq_day_iff_written, fun n d h => (readStamp_eq_day_iff.mp h).1.symm,
    fun d => ⟨numberOf_written d, fun hyear => readStamp_eq_day_iff.mpr ⟨rfl, hyear⟩⟩, fun v w a b hv hw => ?_,
    Dialog.askStrategy_spares⟩
  obtain ⟨rfl, -⟩ := readStamp_eq_day_iff.mp hv
  obtain ⟨rfl, -⟩ := readStamp_eq_day_iff.mp hw
  refine ⟨toStamp_lt_iff_before, toStamp_lt_iff.trans ?_⟩
  rw [Date.daysTo]
  omega

/-- A leap day. -/
def leapDay : Date := ⟨2024, 2, 29, by decide⟩

/-- The day after it. -/
def dayAfter : Date := ⟨2024, 3, 1, by decide⟩

/-- The stamps of these days are read and written, and in order. With a sign before its digits or another one behind
them an integer is not read as a day. -/
theorem stamps_follow_days_leap :
    readStamp 20240229 = .day leapDay ∧ leapDay.written = numeral 20240229 ∧
      (numberOf leapDay.written : Int) = 20240229 ∧ leapDay.Before dayAfter ∧ 1 ≤ leapDay.daysTo dayAfter ∧
      readStamp (-20240229) = .none ∧ readStamp 202402291 = .none := by
  have hstamp : leapDay.toStamp = 20240229 := rfl
  have hstamp' : dayAfter.toStamp = 20240301 := rfl
  obtain ⟨-, hwritten, -, hback, horder, -⟩ := stamps_follow_days
  have hspells := (hback leapDay).1
  have hleap := (hback leapDay).2 (by decide : 1000 ≤ 2024)
  have hafter := (hback dayAfter).2 (by decide : 1000 ≤ 2024)
  rw [hstamp] at hspells hleap
  rw [hstamp'] at hafter
  obtain ⟨hbefore, hspan⟩ := horder _ _ _ _ hleap hafter
  exact ⟨hleap, ((hwritten _ _).mp hleap).2.symm, hspells, hbefore.mp (by decide), hspan.mp (by decide),
    rfl, rfl⟩

end RecordForge
