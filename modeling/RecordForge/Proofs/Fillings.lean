import RecordForge.Proofs.Sharing
import RecordForge.Schema.Descriptor

/-!
# What filling a record comes to

A record is filled field by field: one value is taken for each, and written before the next one is taken. The
first call that fails ends the filling and leaves everything as it is by then. A recipe may name a field twice,
and have several fields filled by one generator.

* `Ledger.setAll`: a ledger after entries are written into it one after the other. `get?_setAll` and
  `keys_setAll` say what stands under a key then, and in which order the keys are.
* `Yields`: every call of a recipe gives a value; `Breaks`: one of them is the first to fail.
* `yields_or_breaks`: either of these happens.
* `Yields.fill_eq`, `Breaks.fill_eq`: what the filling comes to in the two cases; `Yields.leaves`,
  `Breaks.leaves`: which generators stay as they are.
* `Updates`: a record with entries written into it.
* **`fill_updates`**: what filling a record leaves of the record, of the generators and of the source.
-/

namespace RecordForge

/-! ## Entries written one after the other -/

namespace Ledger

variable {κ α : Type} [DecidableEq κ]

/-- A ledger after entries are written into it, one after the other. -/
def setAll (l : Ledger κ α) (entries : List (κ × α)) : Ledger κ α :=
  entries.foldl (fun l e => set l e.1 e.2) l

/-- The value of the last entry under a key, if there is one. -/
def last? (entries : List (κ × α)) (k : κ) : Option α := get? entries.reverse k

theorem get?_append (l l' : Ledger κ α) (k : κ) : get? (l ++ l') k = (get? l k).or (get? l' k) := by
  induction l with
  | nil => rfl
  | cons e rest ih =>
    obtain ⟨k', v⟩ := e
    rw [List.cons_append, get?, get?]
    by_cases hk : k' = k
    · rw [if_pos hk, if_pos hk, Option.some_or]
    · rw [if_neg hk, if_neg hk, ih]

theorem last?_cons (e : κ × α) (entries : List (κ × α)) (k : κ) :
    last? (e :: entries) k = (last? entries k).or (if e.1 = k then some e.2 else none) := by
  rw [last?, List.reverse_cons, get?_append]
  rfl

/-- Nothing is read under a key that is not among the keys. -/
theorem get?_eq_none {k : κ} : ∀ {l : Ledger κ α}, k ∉ l.map Prod.fst → get? l k = none
  | [], _ => rfl
  | _ :: _, h => by
    obtain ⟨hne, hrest⟩ := not_or.mp (mt List.mem_cons.mpr h)
    rw [get?, if_neg (Ne.symm hne), get?_eq_none hrest]

theorem last?_eq_none {entries : List (κ × α)} {k : κ} (h : k ∉ entries.map Prod.fst) : last? entries k = none :=
  get?_eq_none (by rwa [List.map_reverse, List.mem_reverse])

/-- Under a key stands what was written last, or what was there before. -/
theorem get?_setAll (entries : List (κ × α)) (l : Ledger κ α) (k : κ) :
    get? (setAll l entries) k = (last? entries k).or (get? l k) := by
  induction entries generalizing l with
  | nil => rfl
  | cons e rest ih =>
    rw [setAll, List.foldl_cons, ← setAll, ih, get?_set, last?_cons, Option.or_assoc]
    congr 1
    split <;> rfl

/-- The keys that are there keep their places; new ones follow in the order in which they are first written. -/
theorem keys_setAll (entries : List (κ × α)) (l : Ledger κ α) :
    keys (setAll l entries) = keys l ++ (firsts (entries.map Prod.fst)).filter (· ∉ keys l) := by
  induction entries generalizing l with
  | nil => simp [setAll, firsts]
  | cons e rest ih =>
    rw [setAll, List.foldl_cons, ← setAll, ih, keys_set, List.map_cons, firsts]
    by_cases hk : e.1 ∈ keys l
    · have hsame : ∀ q ∈ firsts (rest.map Prod.fst),
          decide (q ∉ keys l) = (decide (q ∉ keys l) && decide (q ≠ e.1)) := by
        intro q _
        by_cases hq : q = e.1 <;> simp [hq, hk]
      rw [if_pos hk, List.filter_cons_of_neg (by simpa using hk), List.filter_filter, List.filter_congr hsame]
    · have hsame : ∀ q ∈ firsts (rest.map Prod.fst),
          decide (q ∉ keys l ++ [e.1]) = (decide (q ∉ keys l) && decide (q ≠ e.1)) := by
        intro q _
        simp
      rw [if_neg hk, List.filter_cons_of_pos (by simpa using hk), List.filter_filter, List.filter_congr hsame,
        List.append_assoc, List.singleton_append]

end Ledger

variable {σ : Type} [Source σ]

/-! ## The calls of a recipe -/

/-- Every call of a recipe gives a value, each from the pool and the source that the call before it left: the
entries that these values are written as, in order, and the pool and the source that the last call leaves. -/
inductive Yields : Recipe → Pool → σ → List (String × Value) → Pool → σ → Prop
  | nil (p : Pool) (s : σ) : Yields [] p s [] p s
  | cons {field name : String} {v : Value} {rest : Recipe} {entries : List (String × Value)}
    {p p₁ p' : Pool} {s s₁ s' : σ} :
    p.next name s = (.ok v, p₁, s₁) → Yields rest p₁ s₁ entries p' s' →
      Yields ((field, name) :: rest) p s ((field, v) :: entries) p' s'

/-- A call of a recipe is the first one that fails: the calls before it give values, and it leaves a pool and a
source itself. -/
def Breaks (recipe : Recipe) (p : Pool) (s : σ) (before : Recipe) (name : String)
    (entries : List (String × Value)) (e : Failure) (p' : Pool) (s' : σ) : Prop :=
  ∃ field after p₁ s₁, recipe = before ++ (field, name) :: after ∧ Yields before p s entries p₁ s₁ ∧
    p₁.next name s₁ = (.error e, p', s')

section Calls

variable {recipe : Recipe} {entries : List (String × Value)} {p p' : Pool} {s s' : σ}

/-- **All calls of a recipe give values, or one of them is the first to fail.** -/
theorem yields_or_breaks : ∀ (recipe : Recipe) (p : Pool) (s : σ),
    (∃ entries p' s', Yields recipe p s entries p' s') ∨
      ∃ before name entries e p' s', Breaks recipe p s before name entries e p' s'
  | [], p, s => .inl ⟨[], p, s, .nil p s⟩
  | (field, name) :: rest, p, s => by
    rcases hx : p.next name s with ⟨e | v, p₁, s₁⟩
    · exact .inr ⟨[], name, [], e, p₁, s₁, field, rest, p, s, rfl, .nil p s, hx⟩
    · rcases yields_or_breaks rest p₁ s₁ with ⟨entries, p', s', h⟩ | ⟨before, other, entries, e, p', s', h⟩
      · exact .inl ⟨_, p', s', .cons hx h⟩
      · obtain ⟨field', after, p₂, s₂, rfl, hbefore, hfails⟩ := h
        exact .inr ⟨(field, name) :: before, other, (field, v) :: entries, e, p', s', field', after, p₂, s₂, rfl,
          .cons hx hbefore, hfails⟩

/-- There is one entry for each field, in order. -/
theorem Yields.fields (h : Yields recipe p s entries p' s') : entries.map Prod.fst = recipe.map Prod.fst := by
  induction h with
  | nil => rfl
  | cons hx _ ih => rw [List.map_cons, List.map_cons, ih]

/-- A call of one generator leaves every other one. -/
theorem get?_of_next {name other : String} {outcome : Except Failure Value}
    (hx : p.next name s = (outcome, p', s')) (hne : other ≠ name) : Ledger.get? p' other = Ledger.get? p other := by
  have hnext := get?_next (Ne.symm hne) p s
  rwa [hx] at hnext

/-- A generator that is not called stays as it is. -/
theorem Yields.leaves (h : Yields recipe p s entries p' s') {other : String} (hother : other ∉ recipe.map Prod.snd) :
    Ledger.get? p' other = Ledger.get? p other := by
  induction h with
  | nil => rfl
  | cons hx _ ih =>
    obtain ⟨hne, hrest⟩ := not_or.mp (mt List.mem_cons.mpr hother)
    exact (ih hrest).trans (get?_of_next hx hne)

/-- **A filling goes on after calls that gave values**, with these written into the record. -/
theorem Yields.fill_append (h : Yields recipe p s entries p' s') (after : Recipe) (r : Record) :
    fill (recipe ++ after) r p s = fill after (Ledger.setAll r entries) p' s' := by
  induction h generalizing r with
  | nil => rfl
  | cons hx _ ih =>
    simp only [List.cons_append, fill, hx]
    exact ih _

theorem Yields.fill_eq (h : Yields recipe p s entries p' s') (r : Record) :
    fill recipe r p s = ⟨none, Ledger.setAll r entries, p', s'⟩ := by
  have hfill := h.fill_append [] r
  rwa [List.append_nil] at hfill

section Broken

variable {before : Recipe} {name : String} {e : Failure}

theorem Breaks.fields (h : Breaks recipe p s before name entries e p' s') :
    entries.map Prod.fst = before.map Prod.fst := by
  obtain ⟨_, _, _, _, _, hbefore, _⟩ := h
  exact hbefore.fields

/-- A generator that is called neither before a failure nor by the call that fails stays as it is. -/
theorem Breaks.leaves (h : Breaks recipe p s before name entries e p' s') {other : String}
    (hother : other ∉ before.map Prod.snd) (hne : other ≠ name) : Ledger.get? p' other = Ledger.get? p other := by
  obtain ⟨_, _, _, _, _, hbefore, hfails⟩ := h
  exact (get?_of_next hfails hne).trans (hbefore.leaves hother)

/-- **A filling ends with the first call that fails.** -/
theorem Breaks.fill_eq (h : Breaks recipe p s before name entries e p' s') (r : Record) :
    fill recipe r p s = ⟨some e, Ledger.setAll r entries, p', s'⟩ := by
  obtain ⟨field, after, p₁, s₁, rfl, hbefore, hfails⟩ := h
  rw [hbefore.fill_append, fill, hfails]

end Broken

/-- A generator that a recipe does not have is left by its fillings. -/
theorem fill_spares {other : String} (hother : other ∉ recipe.map Prod.snd) (r : Record) (p : Pool) (s : σ) :
    Ledger.get? (fill recipe r p s).pool other = Ledger.get? p other := by
  rcases yields_or_breaks recipe p s with ⟨entries, p', s', h⟩ | ⟨before, name, entries, e, p', s', h⟩
  · rw [h.fill_eq]
    exact h.leaves hother
  · rw [h.fill_eq]
    obtain ⟨field, after, p₁, s₁, rfl, -, -⟩ := id h
    rw [List.map_append, List.mem_append, not_or] at hother
    exact h.leaves hother.1 (List.ne_of_not_mem_cons hother.2)

end Calls

/-! ## The record -/

/-- A record with entries written into it, one after the other. -/
structure Updates (r : Record) (entries : List (String × Value)) (r' : Record) : Prop where
  written : r' = Ledger.setAll r entries
  /-- In a field stands the value that was written last, or what stood there before. -/
  values : ∀ q, Ledger.get? r' q = (Ledger.last? entries q).or (Ledger.get? r q)
  /-- A field without an entry keeps its value. -/
  others : ∀ q ∉ entries.map Prod.fst, Ledger.get? r' q = Ledger.get? r q
  /-- The fields that are there keep their places, and new ones follow in the order of their first entries. -/
  order : Ledger.keys r' = Ledger.keys r ++ (firsts (entries.map Prod.fst)).filter (· ∉ Ledger.keys r)

theorem updates_setAll (r : Record) (entries : List (String × Value)) :
    Updates r entries (Ledger.setAll r entries) where
  written := rfl
  values q := Ledger.get?_setAll entries r q
  others q hq := by rw [Ledger.get?_setAll, Ledger.last?_eq_none hq, Option.none_or]
  order := Ledger.keys_setAll entries r

/-- **What filling a record leaves.** Take any recipe, in which fields and generators may come more than once, any
record, pool and source. If every call gives a value, the record is updated with these values in order, and pool
and source are what the last call leaves. If one call is the first to fail, the record is updated with the values
of the calls before it alone, and pool and source are what this call leaves: a generator that is called neither by
it nor before it is as it was, and nothing is drawn any more. Either of the two happens. In both, fields that are
not written keep their values, those that are there keep their places, and new ones follow in the order in which
they are first written. -/
theorem fill_updates (recipe : Recipe) (r : Record) (p : Pool) (s : σ) :
    (∀ entries p' s', Yields recipe p s entries p' s' →
      ∃ r', fill recipe r p s = ⟨none, r', p', s'⟩ ∧ entries.map Prod.fst = recipe.map Prod.fst ∧
        Updates r entries r') ∧
    (∀ before name entries e p' s', Breaks recipe p s before name entries e p' s' →
      (∃ r', fill recipe r p s = ⟨some e, r', p', s'⟩ ∧ entries.map Prod.fst = before.map Prod.fst ∧
        Updates r entries r') ∧
      ∀ other ∉ before.map Prod.snd, other ≠ name → Ledger.get? p' other = Ledger.get? p other) ∧
    ((∃ entries p' s', Yields recipe p s entries p' s') ∨
      ∃ before name entries e p' s', Breaks recipe p s before name entries e p' s') := by
  refine ⟨fun entries p' s' h => ?_, fun before name entries e p' s' h => ⟨?_, fun other => h.leaves⟩,
    yields_or_breaks recipe p s⟩
  · exact ⟨_, h.fill_eq r, h.fields, updates_setAll r entries⟩
  · exact ⟨_, h.fill_eq r, h.fields, updates_setAll r entries⟩

/-- A counter of integers that comes to its end, a choice that is drawn, and a rotation. -/
def levelPool : Pool :=
  [("count", .counter 2147483646 1 .int), ("side", .pick [.text "L", .text "R"]),
    ("turn", .rotate [.text "x", .text "y"] 0)]

/-- A field that comes twice, and a counter for three fields; the rotation comes after them. -/
def levelRecipe : Recipe :=
  [("a", "count"), ("b", "side"), ("a", "count"), ("c", "count"), ("d", "turn")]

/-- The third call of the counter fails: the record has what came before it, in its place, and the rotation has
not gone on. -/
theorem fill_updates_level : ∃ p' s',
    Breaks levelRecipe levelPool ({ ints := ⟨#[1, 0], 0⟩ } : Script) (levelRecipe.take 3) "count"
      [("a", .int 2147483646), ("b", .text "R"), ("a", .int 2147483647)] (.misfit 2147483648) p' s' ∧
    fill levelRecipe [("b", .null), ("z", .int 7)] levelPool { ints := ⟨#[1, 0], 0⟩ } =
      ⟨some (.misfit 2147483648), [("b", .text "R"), ("z", .int 7), ("a", .int 2147483647)], p', s'⟩ ∧
    s'.ints.position = 1 ∧ Ledger.get? p' "turn" = some (.rotate [.text "x", .text "y"] 0) := by
  obtain ⟨p', s', h, hposition⟩ : ∃ p' s',
      Breaks levelRecipe levelPool ({ ints := ⟨#[1, 0], 0⟩ } : Script) (levelRecipe.take 3) "count"
        [("a", .int 2147483646), ("b", .text "R"), ("a", .int 2147483647)] (.misfit 2147483648) p' s' ∧
      s'.ints.position = 1 :=
    ⟨_, _, ⟨"c", [("d", "turn")], _, _, rfl, .cons rfl (.cons rfl (.cons rfl (.nil _ _))), rfl⟩, rfl⟩
  obtain ⟨⟨r', hfill, -, hrecord⟩, hleaves⟩ :=
    (fill_updates levelRecipe [("b", .null), ("z", .int 7)] levelPool _).2.1 _ _ _ _ _ _ h
  refine ⟨p', s', h, ?_, hposition, (hleaves "turn" (by decide) (by decide)).trans rfl⟩
  rw [hfill, hrecord.written]
  rfl

end RecordForge
