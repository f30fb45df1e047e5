/-!
# Entries in the order of their first writing

A ledger is a list of `(key, value)` entries. Writing under a key that is there keeps the entry's
place and replaces its value; writing under a new key adds an entry at the end. Records, the columns
of a table and the entries of a document are ledgers.

* `get?`, `set`, `keys`: reading, writing, and the order of the entries.
* `get?_set`, `get?_filter_ne`: what is read after a write, and after a key is taken out.
* `set_of_get?`: writing what is there changes nothing.
* `keys_set`: a write adds its key at the end, unless it is there.
-/

namespace RecordForge

/-- Entries in the order in which their keys were first written. -/
abbrev Ledger (κ α : Type) := List (κ × α)

namespace Ledger

variable {κ α : Type} [DecidableEq κ]

/-- The value under a key: the first entry's, if there is one. -/
def get? : Ledger κ α → κ → Option α
  | [], _ => none
  | (k, v) :: rest, q => if k = q then some v else get? rest q

/-- Write a value under a key. -/
def set : Ledger κ α → κ → α → Ledger κ α
  | [], k, v => [(k, v)]
  | (k', v') :: rest, k, v => if k' = k then (k, v) :: rest else (k', v') :: set rest k v

/-- The keys in order. -/
def keys (l : Ledger κ α) : List κ := l.map Prod.fst

/-- The ledger after writing entries one after the other. -/
def ofList (entries : List (κ × α)) : Ledger κ α := entries.foldl (fun l e => set l e.1 e.2) []

/-- Reading after a write gives the written value, or what was there under another key. -/
theorem get?_set (l : Ledger κ α) (k q : κ) (v : α) :
    get? (set l k v) q = if k = q then some v else get? l q := by
  induction l with
  | nil => simp only [set, get?]
  | cons e rest ih =>
    obtain ⟨k', v'⟩ := e
    simp only [set]
    split
    · rename_i h
      subst h
      simp only [get?]
      split <;> rfl
    · rename_i h
      simp only [get?, ih]
      by_cases hq : k' = q
      · subst hq
        rw [if_pos rfl, if_neg (fun hk => h hk.symm)]
        simp
      · simp [hq]

/-- Taking out the entries of a key leaves what is read under every other one. -/
theorem get?_filter_ne {k q : κ} (h : q ≠ k) : ∀ l : Ledger κ α,
    get? (l.filter fun e => e.1 ≠ k) q = get? l q
  | [] => rfl
  | (k', v) :: rest => by
    by_cases hk : k' = k
    · subst hk
      rw [List.filter_cons_of_neg (by simp), get?, if_neg h.symm, get?_filter_ne h rest]
    · rw [List.filter_cons_of_pos (by simpa using hk), get?, get?, get?_filter_ne h rest]

/-- Writing what is there changes nothing. -/
theorem set_of_get? {k : κ} {v : α} : ∀ {l : Ledger κ α}, get? l k = some v → set l k v = l
  | [], h => by cases h
  | (k', v') :: rest, h => by
    by_cases hk : k' = k
    · rw [get?, if_pos hk] at h
      cases h
      rw [set, if_pos hk, hk]
    · rw [get?, if_neg hk] at h
      rw [set, if_neg hk, set_of_get? h]

/-- A write keeps the order of the keys and adds a new key at the end. -/
theorem keys_set (l : Ledger κ α) (k : κ) (v : α) :
    keys (set l k v) = if k ∈ keys l then keys l else keys l ++ [k] := by
  induction l with
  | nil => simp [set, keys]
  | cons e rest ih =>
    obtain ⟨k', v'⟩ := e
    simp only [keys, set] at *
    by_cases h : k' = k
    · simp [h]
    · have h' : k ≠ k' := fun hk => h hk.symm
      simp only [if_neg h, List.map_cons, ih, List.mem_cons, h', false_or]
      by_cases hm : k ∈ rest.map Prod.fst <;> simp [hm]

end Ledger

end RecordForge
