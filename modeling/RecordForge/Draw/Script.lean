import RecordForge.Draw.Source

/-!
# Scripted sources

A source whose draws are written down. Each kind of draw has a list that is used over and over. A
draw of a kind without a list takes the next term of one sequence that all such draws share:
`0, 2, 1, 4, 3, 6, 5, …`.

* `Tape`: a list with a position.
* `Script`: a source of four tapes and the shared sequence.
-/

namespace RecordForge

/-- A list that is read over and over. -/
structure Tape (α : Type) where
  items : Array α
  position : Nat := 0

/-- The next item of a tape, if it has any. -/
def Tape.next? {α : Type} (t : Tape α) : Option (α × Tape α) :=
  if h : 0 < t.items.size then
    have inside := Nat.mod_lt t.position h
    some (t.items[t.position % t.items.size], { t with position := t.position + 1 })
  else none

/-- A source whose draws are written down. -/
structure Script where
  longs : Tape Int := ⟨#[], 0⟩
  ints : Tape Int := ⟨#[], 0⟩
  fractions : Tape Float := ⟨#[], 0⟩
  normals : Tape Float := ⟨#[], 0⟩
  /-- How many draws the shared sequence has given. -/
  shared : Nat := 0

namespace Script

/-- A term of the shared sequence: after the zero each pair of naturals is swapped. -/
def term (i : Nat) : Nat := if i = 0 then 0 else if i % 2 = 1 then i + 1 else i - 1

/-- The next term of the shared sequence. -/
def step (s : Script) : Nat × Script := (term s.shared, { s with shared := s.shared + 1 })

/-- A term of the shared sequence as a floating-point number: groups of five share one value, the
first of them minus three. -/
def termFloat (n : Nat) : Float := Float.ofInt ((n / 5 : Nat) - 3)

/-- The next signed 64-bit integer of a script. -/
def long (s : Script) : Int × Script :=
  match s.longs.next? with
  | some (n, t) => (n, { s with longs := t })
  | none => let (n, s) := s.step; (n, s)

/-- The residue of an integer modulo a bound. -/
def residue (bound : Nat) (h : 0 < bound) (n : Int) : Fin bound :=
  ⟨(n % bound).toNat, by
    have h0 : (0 : Int) ≤ n % bound := Int.emod_nonneg _ (by omega)
    have h1 : n % (bound : Int) < bound := Int.emod_lt_of_pos _ (by omega)
    omega⟩

/-- The next natural below a bound of a script. -/
def below (bound : Nat) (h : 0 < bound) (s : Script) : Fin bound × Script :=
  match s.ints.next? with
  | some (n, t) => (residue bound h n, { s with ints := t })
  | none => let (n, s) := s.step; (residue bound h n, s)

/-- The next fraction of a script. -/
def fraction (s : Script) : Float × Script :=
  match s.fractions.next? with
  | some (x, t) => (x, { s with fractions := t })
  | none => let (n, s) := s.step; (termFloat n, s)

/-- The next normally distributed number of a script. -/
def normal (s : Script) : Float × Script :=
  match s.normals.next? with
  | some (x, t) => (x, { s with normals := t })
  | none => let (n, s) := s.step; (termFloat n, s)

instance : Source Script := ⟨long, below, fraction, normal, fun _ => none⟩

end Script

end RecordForge
