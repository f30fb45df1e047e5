import RecordForge.Proofs.Wordings

/-!
# Commands as regular expressions

The form of a command is a regular expression with groups that are remembered. It is matched by backtracking: of
several ways to go on the preferred one is tried first, and the next one only if what comes after it does not match.
A number, or a list of numbers, is matched as far as it goes, because nothing that comes after it begins with a
character that may belong to it.

* `Pattern`, `Pattern.run`, `Pattern.match?`: regular expressions, and matching a text from its start.
* `Operand.pattern`, `Clause.pattern`, `Grammar.pattern`: those of the commands of a kind.
* `Parts.groups`: the groups that the parts of a command are.
* `Refuses`, `run_many_one`: what comes next does not go on with a class of characters, which is matched as far as
  it goes.
* `run_digits`, `run_integer`, `run_decimal`, `run_integers`: each number is matched where it is read.
* **`run_blanks_number`**: so is a number after blanks, and it is remembered as what is read.
-/

namespace RecordForge

open Text

namespace Command

/-! ## Matching -/

/-- What is remembered of a text. -/
inductive Group where
  | mode
  | operand (part : Part)
  deriving DecidableEq, Repr

/-- The groups of a match, with their texts. -/
abbrev Groups := List (Group × List Char)

/-- What comes next: whether the rest of a text matches, given the groups so far. -/
abbrev Next := Groups → List Char → Option Groups

/-- A regular expression. -/
inductive Pattern where
  /-- A word. -/
  | word (w : List Char)
  /-- One character of a class. -/
  | one (p : Char → Bool)
  /-- One after the other. -/
  | seq (a b : Pattern)
  /-- One or the other, the first one preferred. -/
  | either (a b : Pattern)
  /-- Any number of times, as often as possible. What is repeated has a character at least. -/
  | many (a : Pattern)
  /-- A group that is remembered. -/
  | group (g : Group) (a : Pattern)
  /-- The end of the text. One last line feed is let pass. -/
  | stop

namespace Pattern

/-- Match something as often as possible, and then what comes next. -/
def runMany (body : Next → List Char → Option Groups) : (fuel : Nat) → Next → List Char → Option Groups
  | 0, next, s => next [] s
  | fuel + 1, next, s =>
    (body (fun gs => runMany body fuel fun hs => next (gs ++ hs)) s).or (next [] s)

/-- Match a pattern at the start of a text, and then what comes next. -/
def run : Pattern → Next → List Char → Option Groups
  | word w, next, s => (after? w s).bind (next [])
  | one _, _, [] => none
  | one p, next, c :: s => if p c then next [] s else none
  | seq a b, next, s => a.run (fun gs => b.run fun hs => next (gs ++ hs)) s
  | either a b, next, s => (a.run next s).or (b.run next s)
  | many a, next, s => runMany a.run s.length next s
  | group g a, next, s => a.run (fun gs rest => next ((g, s.take (s.length - rest.length)) :: gs) rest) s
  | stop, next, s => if isEnd s then next [] s else none

/-- The groups of the first match of a pattern at the start of a text. -/
def match? (p : Pattern) (s : List Char) : Option Groups := p.run (fun gs _ => some gs) s

/-! ## Patterns of commands -/

/-- A pattern or nothing, the pattern preferred. -/
def optional (a : Pattern) : Pattern := either a (word [])

/-- Characters of a class, one at least. -/
def several (p : Char → Bool) : Pattern := seq (one p) (many (one p))

/-- Any blanks. -/
def blanks : Pattern := many (one isBlank)

/-- Decimal digits with an optional minus sign before them. -/
def integer : Pattern := seq (optional (word ['-'])) (several isDigit)

/-- Patterns with commas and any blanks between them. -/
def list (item : Pattern) : Pattern := seq item (many (seq (word [',']) (seq blanks item)))

/-- One of some words. -/
def oneOf : List (List Char) → Pattern
  | [] => one fun _ => false
  | w :: ws => either (word w) (oneOf ws)

end Pattern

open Pattern

/-- The pattern of an operand. -/
def Operand.pattern : Operand → Pattern
  | natural => .several isDigit
  | integer => .integer
  | decimal => .seq .integer (.optional (.seq (.word ['.']) (.many (.one isDigit))))
  | integers => .list .integer
  | texts => .list (.several (· ≠ ','))

/-- The pattern of a clause: a keyword with any blanks around it, and the operand. -/
def Clause.pattern (c : Clause) : Pattern :=
  .optional (.seq .blanks (.seq (.word c.keyword.toList) (.seq .blanks
    (.group (.operand c.part) c.operand.pattern))))

/-- The pattern of clauses, one after the other, up to the end. -/
def clausesPattern : List Clause → Pattern
  | [] => .stop
  | c :: cs => .seq c.pattern (clausesPattern cs)

/-- **The pattern of the commands of a kind**: an optional mode, and then the clauses. -/
def Grammar.pattern (g : Grammar) : Pattern :=
  .seq (.optional (.group .mode (.oneOf (g.modes.map fun m => m.word.toList)))) (clausesPattern g.clauses)

/-- The group of an operand. -/
def operandGroup (e : Part × List Char) : Group × List Char := (.operand e.1, e.2)

/-- The groups that the parts of a command are. -/
def Parts.groups (p : Parts) : Groups :=
  (p.mode.toList.map fun m => (Group.mode, m.word.toList)) ++ p.operands.map operandGroup

section

variable {next : Next} {p : Char → Bool} {s : List Char}

/-! ## Numbers -/

/-- What comes next does not begin with a character of a class. -/
def Refuses (next : Next) (p : Char → Bool) : Prop := ∀ gs c t, p c = true → next gs (c :: t) = none

/-- A character that may belong to a number or to a list of numbers. -/
def ofNumber (c : Char) : Bool := isDigit c || c == '.' || c == ','

theorem Refuses.digits (h : Refuses next ofNumber) : Refuses next isDigit := by
  intro gs c t hc
  exact h gs c t (by simp [ofNumber, hc])

/-- Characters of a class are matched as far as they go, if going back does not help. -/
theorem run_many_one (h : ∀ c t, p c = true → next [] (c :: t) = none ∨ (next [] (t.dropWhile p)).isSome) :
    ∀ s, (many (one p)).run next s = next [] (s.dropWhile p)
  | [] => rfl
  | c :: t => by
    show ((one p).run (fun gs => runMany (one p).run t.length fun hs => next (gs ++ hs)) (c :: t)).or _ = _
    have ih : runMany (one p).run t.length next t = next [] (t.dropWhile p) := run_many_one h t
    by_cases hc : p c = true
    · rw [run, if_pos hc, List.dropWhile_cons_of_pos hc]
      simp only [List.nil_append, ih]
      rcases h c t hc with hnone | hsome
      · rw [hnone, Option.or_none]
      · rw [Option.or_of_isSome hsome]
    · rw [run, if_neg hc, List.dropWhile_cons_of_neg hc, Option.none_or]

theorem run_many_one_of_refuses (h : Refuses next p) (s : List Char) :
    (many (one p)).run next s = next [] (s.dropWhile p) :=
  run_many_one (fun c t hc => Or.inl (h [] c t hc)) s

theorem run_digits (h : Refuses next isDigit) (s : List Char) :
    (several isDigit).run next s = (natural? s).bind fun r => next [] r.2 := by
  cases s with
  | nil => rfl
  | cons c t =>
    have hmany := run_many_one_of_refuses h t
    by_cases hc : isDigit c = true
    · rw [several, run, run, if_pos hc, natural?, leadingDigits, List.takeWhile_cons_of_pos hc, afterDigits,
        List.dropWhile_cons_of_pos hc]
      exact hmany
    · rw [several, run, run, if_neg hc, natural?, leadingDigits, List.takeWhile_cons_of_neg hc]
      rfl

theorem run_optional (a : Pattern) (next : Next) (s : List Char) :
    (optional a).run next s = (a.run next s).or (next [] s) := rfl

theorem run_integer (h : Refuses next isDigit) (s : List Char) :
    Pattern.integer.run next s = (integer? s).bind fun r => next [] r.2 := by
  have hdigits := run_digits h
  show ((after? ['-'] s).bind ((several isDigit).run next)).or ((several isDigit).run next s) = _
  rw [hdigits s]
  by_cases hs : ∃ t, s = '-' :: t
  · obtain ⟨t, rfl⟩ := hs
    have hnone : natural? ('-' :: t) = none := rfl
    rw [hnone, Option.bind_none, Option.or_none]
    show (several isDigit).run next t = _
    rw [hdigits t, integer?, Option.bind_map]
    rfl
  · have hnone : after? ['-'] s = none := by
      rw [Option.eq_none_iff_forall_ne_some]
      intro t ht
      exact hs ⟨t, after?_eq_some_iff.mp ht⟩
    rw [hnone, Option.bind_none, Option.none_or, integer?.eq_2 s fun t ht => hs ⟨t, ht⟩]

theorem natural?_ne (hs : ∀ c ∈ s.head?, isDigit c = false) : natural? s = none := by
  cases s with
  | nil => rfl
  | cons c s => simp [natural?, leadingDigits, hs c rfl]

theorem integer?_ne (hs : ∀ c ∈ s.head?, isDigit c = false ∧ c ≠ '-') : integer? s = none := by
  rw [integer?.eq_2, natural?_ne fun c hc => (hs c hc).1]
  rintro t rfl
  exact (hs '-' rfl).2 rfl

/-- No number begins with a blank. -/
theorem ne_of_isBlank {c : Char} (hc : isBlank c = true) : isDigit c = false ∧ c ≠ '-' := by
  constructor
  · by_contra hdigit
    rw [isBlank_of_digit (by simpa using hdigit)] at hc
    cases hc
  · rintro rfl
    exact absurd hc (by decide)

/-- The operand that a text starts with, if it is a number or a list of numbers. -/
def Operand.number? : Operand → List Char → Option (List Char × List Char)
  | natural => natural?
  | integer => integer?
  | decimal => decimal?
  | integers => integers?
  | texts => fun _ => none

theorem Operand.read?_number : ∀ {o : Operand}, o ≠ texts → ∀ s, o.read? s = o.number? (trimLeft s)
  | natural, _, _ | integer, _, _ | decimal, _, _ | integers, _, _ => rfl
  | texts, h, _ => absurd rfl h

/-- What is matched after a decimal point. -/
theorem run_fraction (h : Refuses next ofNumber) (s : List Char) :
    (optional (.seq (.word ['.']) (.many (.one isDigit)))).run next s =
      match s with
      | '.' :: t => next [] (afterDigits t)
      | t => next [] t := by
  rw [run_optional]
  split
  · rename_i t
    have hpoint : next [] ('.' :: t) = none := h [] '.' t rfl
    rw [hpoint, Option.or_none]
    exact run_many_one_of_refuses h.digits t
  · rename_i hne
    have hnone : after? ['.'] s = none := by
      rw [Option.eq_none_iff_forall_ne_some]
      intro t ht
      exact hne t (after?_eq_some_iff.mp ht)
    rw [run, run, hnone, Option.bind_none, Option.none_or]

theorem run_decimal (h : Refuses next ofNumber) (s : List Char) :
    Operand.decimal.pattern.run next s = (decimal? s).bind fun r => next [] r.2 := by
  have hfraction : Refuses (fun gs => (Pattern.optional (.seq (.word ['.']) (.many (.one isDigit)))).run
      fun hs => next (gs ++ hs)) isDigit := by
    intro gs c t hc
    have hgs : Refuses (fun hs => next (gs ++ hs)) ofNumber := fun hs c t hc => h (gs ++ hs) c t hc
    have hpoint : c ≠ '.' := by
      rintro rfl
      exact absurd hc (by decide)
    have hrun := run_fraction hgs (c :: t)
    split at hrun
    · rename_i heq
      exact absurd (List.cons.inj heq).1 hpoint
    · exact hrun.trans (hgs.digits [] c t hc)
  rw [Operand.pattern, run, run_integer hfraction, decimal?, Option.bind_map]
  congr 1
  funext r
  show (Pattern.optional _).run next r.2 = _
  rw [run_fraction h]
  obtain ⟨whole, rest⟩ := r
  cases rest with
  | nil => rfl
  | cons c t =>
    by_cases hc : c = '.'
    · subst hc
      rfl
    · simp [hc]

/-- One more item of a list. -/
def nextItem (item : Pattern) : Pattern := .seq (.word [',']) (.seq .blanks item)

theorem run_nextItem_ne (item : Pattern) (next : Next) (h : ∀ c ∈ s.head?, c ≠ ',') :
    (nextItem item).run next s = none := by
  have hnone : after? [','] s = none := by
    rw [Option.eq_none_iff_forall_ne_some]
    intro t ht
    rw [after?_eq_some_iff.mp ht] at h
    exact h ',' rfl rfl
  rw [nextItem, run, run, hnone, Option.bind_none]

/-- A repetition that does not go on ends. -/
theorem runMany_stop {a : Pattern} (h : ∀ next, a.run next s = none) (fuel : Nat) (next : Next) :
    runMany a.run fuel next s = next [] s := by
  cases fuel with
  | zero => rfl
  | succ fuel => rw [runMany, h, Option.none_or]

theorem refuses_runMany (h : Refuses next isDigit) (item : Pattern) (fuel : Nat) :
    Refuses (fun gs => runMany (nextItem item).run fuel fun hs => next (gs ++ hs)) isDigit := by
  intro gs c t hc
  have hcomma : ∀ d ∈ (c :: t).head?, d ≠ ',' := by
    rintro d hd rfl
    obtain rfl := Option.some.inj hd
    exact absurd hc (by decide)
  dsimp only
  rw [runMany_stop fun next => run_nextItem_ne item next hcomma]
  exact h _ c t hc

/-- An integer does not begin with a blank. -/
theorem refuses_integer (h : Refuses next isDigit) : Refuses (fun gs => Pattern.integer.run fun hs => next (gs ++ hs))
    isBlank := by
  intro gs c t hc
  have hgs : Refuses (fun hs => next (gs ++ hs)) isDigit := fun hs => h (gs ++ hs)
  have hnone : integer? (c :: t) = none := by
    refine integer?_ne fun d hd => ?_
    obtain rfl := Option.some.inj hd
    exact ne_of_isBlank hc
  exact (run_integer hgs (c :: t)).trans (by rw [hnone, Option.bind_none])

/-- The further integers of a list are matched as far as they go. -/
theorem run_moreIntegers (h : Refuses next ofNumber) : ∀ (fuel : Nat) (s : List Char),
    runMany (nextItem .integer).run fuel next s = next [] (moreIntegers fuel s).2
  | 0, s => rfl
  | fuel + 1, s => by
    by_cases hs : ∃ t, s = ',' :: t
    · obtain ⟨t, rfl⟩ := hs
      have hcomma : next [] (',' :: t) = none := h [] ',' t rfl
      have hmore := refuses_runMany h.digits .integer fuel
      have hitem : (nextItem .integer).run (fun gs => runMany (nextItem .integer).run fuel fun hs => next (gs ++ hs))
          (',' :: t) = (integer? (trimLeft t)).bind fun r => next [] (moreIntegers fuel r.2).2 := by
        refine (run_many_one_of_refuses (refuses_integer hmore) t).trans ?_
        refine (run_integer hmore (trimLeft t)).trans ?_
        congr 1
        funext r
        exact run_moreIntegers h fuel r.2
      rw [runMany, hitem, hcomma, Option.or_none]
      cases hn : integer? (trimLeft t) with
      | none => simp only [moreIntegers, hn, hcomma, Option.bind_none]
      | some r => simp only [moreIntegers, hn, Option.bind_some]
    · have hne : ∀ c ∈ s.head?, c ≠ ',' := by
        rintro c hc rfl
        cases s with
        | nil => cases hc
        | cons d s =>
          obtain rfl := Option.some.inj hc
          exact hs ⟨s, rfl⟩
      rw [runMany_stop fun next => run_nextItem_ne .integer next hne, moreIntegers_stop hne]

theorem run_integers (h : Refuses next ofNumber) (s : List Char) :
    Operand.integers.pattern.run next s = (integers? s).bind fun r => next [] r.2 := by
  have hmore := refuses_runMany h.digits .integer
  have hlist : Refuses (fun gs t => runMany (nextItem .integer).run t.length (fun hs => next (gs ++ hs)) t)
      isDigit := fun gs c t hc => hmore (c :: t).length gs c t hc
  rw [integers?, Option.bind_map]
  refine (run_integer hlist s).trans ?_
  congr 1
  funext r
  exact run_moreIntegers h r.2.length r.2

/-! ## Operands that are numbers -/

/-- A number is matched where it is read. -/
theorem run_number (h : Refuses next ofNumber) : ∀ {o : Operand}, o ≠ .texts → ∀ s,
    o.pattern.run next s = (o.number? s).bind fun r => next [] r.2
  | .natural, _, s => run_digits h.digits s
  | .integer, _, s => run_integer h.digits s
  | .decimal, _, s => run_decimal h s
  | .integers, _, s => run_integers h s
  | .texts, ho, _ => absurd rfl ho

theorem Operand.number?_blank {c : Char} (hc : isBlank c = true) (t : List Char) :
    ∀ o : Operand, o.number? (c :: t) = none := by
  obtain ⟨hdigit, hsign⟩ := ne_of_isBlank hc
  have hnatural : natural? (c :: t) = none := natural?_ne fun d hd => Option.some.inj hd ▸ hdigit
  have hinteger : integer? (c :: t) = none := integer?_ne fun d hd => Option.some.inj hd ▸ ⟨hdigit, hsign⟩
  intro o
  cases o <;> simp [number?, decimal?, integers?, hnatural, hinteger]

theorem Operand.append_of_number? {x rest : List Char} : ∀ {o : Operand}, o.number? s = some (x, rest) →
    s = x ++ rest
  | natural, h => (of_natural? h).1
  | integer, h => (of_integer? h).1
  | decimal, h => (of_decimal? h).1
  | integers, h => by
    obtain ⟨⟨n, t⟩, hn, heq⟩ := Option.map_eq_some_iff.mp h
    obtain ⟨rfl, rfl⟩ := Prod.mk.inj heq
    obtain ⟨ht, -⟩ := of_moreIntegers t.length t
    rw [(of_integer? hn).1, List.append_assoc, ← ht]

/-- A number is remembered as what is read. -/
theorem run_group_number (h : Refuses next ofNumber) {o : Operand} (ho : o ≠ .texts) (g : Group) (s : List Char) :
    (group g o.pattern).run next s = (o.number? s).bind fun r => next [(g, r.1)] r.2 := by
  have hnext : Refuses (fun gs rest => next ((g, s.take (s.length - rest.length)) :: gs) rest) ofNumber :=
    fun gs c t hc => h _ c t hc
  refine (run_number hnext ho s).trans ?_
  cases hx : o.number? s with
  | none => rfl
  | some r =>
    obtain ⟨x, rest⟩ := r
    have htake : s.take (s.length - rest.length) = x := by
      rw [Operand.append_of_number? hx]
      simp
    simp only [Option.bind_some, htake]

/-- **Blanks and a number are matched where they are read.** -/
theorem run_blanks_number (h : Refuses next ofNumber) {o : Operand} (ho : o ≠ .texts) (g : Group) (s : List Char) :
    (seq .blanks (group g o.pattern)).run next s = (o.read? s).bind fun r => next [(g, r.1)] r.2 := by
  have hgroup : Refuses (fun gs => (group g o.pattern).run fun hs => next (gs ++ hs)) isBlank := by
    intro gs c t hc
    have hgs : Refuses (fun hs => next (gs ++ hs)) ofNumber := fun hs => h (gs ++ hs)
    exact (run_group_number hgs ho g (c :: t)).trans (by rw [Operand.number?_blank hc, Option.bind_none])
  rw [Operand.read?_number ho]
  exact (run_many_one_of_refuses hgroup s).trans (run_group_number h ho g (trimLeft s))

end

end Command

end RecordForge
