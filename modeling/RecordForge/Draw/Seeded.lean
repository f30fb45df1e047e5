import RecordForge.Draw.Source

/-!
# Seeded sources

A source that a natural number determines: the seed is spread over a pool of 32-bit words, and a
permuted congruential generator of 128 bits draws 64-bit words from what the pool gives.

* `Seed.pool`, `Seed.words`: the pool of a seed, and the four 64-bit words it gives.
* `Congruential`: the state of the generator; `word64`, `word32` draw words.
* `Congruential.below`: a draw below a bound, without bias: a word is multiplied by the bound, and the low
  part of the product decides whether it is drawn again.
* `Seeded`: a source that draws from the generator. How it makes numbers of the standard normal
  distribution of the words is up to the library that it stands for, so it is told.
-/

namespace RecordForge

namespace Seed

/-! ## The pool -/

/-- The running multiplier of the hash that fills the pool. -/
structure Hash where
  multiplier : UInt32

/-- Hash a word into the pool. -/
def Hash.apply (h : Hash) (v : UInt32) : UInt32 × Hash :=
  let v := v ^^^ h.multiplier
  let next := h.multiplier * 0x931E8875
  let v := v * next
  (v ^^^ (v >>> 16), ⟨next⟩)

/-- Mix a hashed word into a word of the pool. -/
def mix (x y : UInt32) : UInt32 :=
  let r := 0xCA01F9DD * x - 0x4973F715 * y
  r ^^^ (r >>> 16)

/-- The 32-bit words of a natural, least significant first, at most `fuel` of them. -/
def wordsOf : (fuel n : Nat) → List UInt32
  | 0, _ => []
  | fuel + 1, n => if n = 0 then [] else UInt32.ofNat n :: wordsOf fuel (n / twoTo 32)

/-- The pool and the hash that fills it. -/
structure Pool where
  words : Vector UInt32 4
  hash : Hash

/-- Hash a word into one place of the pool. -/
def Pool.absorb (p : Pool) (place : Fin 4) (v : UInt32) : Pool :=
  let (h, hash) := p.hash.apply v
  ⟨p.words.set place (mix p.words[place] h), hash⟩

/-- The places of the pool in order. -/
def places : List (Fin 4) := [0, 1, 2, 3]

/-- Every ordered pair of different places. -/
def pairs : List (Fin 4 × Fin 4) :=
  places.flatMap fun s => (places.filter (· ≠ s)).map fun d => (s, d)

/-- The pool filled with the first four words of a seed. -/
def fill (entropy : List UInt32) : Pool :=
  places.foldl
    (fun (p : Pool) (place : Fin 4) =>
      let (h, hash) := p.hash.apply (entropy.getD place.val 0)
      ⟨p.words.set place h, hash⟩)
    ⟨Vector.replicate 4 0, ⟨0x43B0D7E5⟩⟩

/-- The pool of a seed: filled, mixed among itself, and mixed with the words left over. -/
def pool (seed : Nat) : Pool :=
  let entropy := wordsOf (seed.log2 / 32 + 1) seed
  let mixed := pairs.foldl (fun (p : Pool) (s, d) => p.absorb d p.words[s]) (fill entropy)
  (entropy.drop 4).foldl (fun p e => places.foldl (fun (p : Pool) d => p.absorb d e) p) mixed

/-- The running multiplier of the hash that reads the pool. -/
def readHash (multiplier v : UInt32) : UInt32 × UInt32 :=
  let v := v ^^^ multiplier
  let next := multiplier * 0x58F38DED
  let v := v * next
  (v ^^^ (v >>> 16), next)

/-- The first `n` words read from a pool, from a place on. -/
def readWords (words : Vector UInt32 4) : (n : Nat) → (place : Fin 4) → UInt32 → List UInt32
  | 0, _, _ => []
  | n + 1, place, multiplier =>
    let (v, next) := readHash multiplier words[place]
    v :: readWords words n (place + 1) next

/-- The 64-bit words made of pairs of 32-bit words, the low one first. -/
def joinPairs : List UInt32 → List Nat
  | low :: high :: rest => (low.toNat + high.toNat * twoTo 32) :: joinPairs rest
  | _ => []

/-- The four 64-bit words of a seed. -/
def words (seed : Nat) : List Nat := joinPairs (readWords (pool seed).words 8 0 0x8B51F9DD)

end Seed

/-! ## The generator -/

/-- The state of a permuted congruential generator. -/
structure Congruential where
  /-- The state before it is permuted. -/
  state : BitVec 128
  /-- Its increment, an odd number. -/
  increment : BitVec 128
  /-- The high half of the last word drawn for its low half. -/
  half : Option (BitVec 32) := none
  deriving DecidableEq

namespace Congruential

/-- One step of the generator. -/
def advance (s : Congruential) : Congruential :=
  { s with state := s.state * 0x2360ED051FC65DA44385DF649FCCF645#128 + s.increment }

/-- The generator of a seed. -/
def ofSeed (seed : Nat) : Congruential :=
  let w := Seed.words seed
  let start := BitVec.ofNat 128 (w.getD 0 0 * twoTo 64 + w.getD 1 0)
  let stream := BitVec.ofNat 128 (w.getD 2 0 * twoTo 64 + w.getD 3 0)
  let s : Congruential := { state := 0, increment := stream <<< 1 ||| 1 }
  let s := s.advance
  { s with state := s.state + start }.advance

/-- The next 64-bit word: the halves of the state folded together and rotated. -/
def word64 (s : Congruential) : BitVec 64 × Congruential :=
  let s := s.advance
  let folded := (s.state >>> 64).setWidth 64 ^^^ s.state.setWidth 64
  (folded.rotateRight (s.state >>> 122).toNat, s)

/-- The next 32-bit word: the low half of a word, and its high half the next time. -/
def word32 (s : Congruential) : BitVec 32 × Congruential :=
  match s.half with
  | some h => (h, { s with half := none })
  | none =>
    let (w, s) := s.word64
    (w.setWidth 32, { s with half := some ((w >>> 32).setWidth 32) })

/-- The next word of a width, as a natural. -/
def word (width : Nat) (s : Congruential) : Nat × Congruential :=
  if width = 32 then let (w, s) := s.word32; (w.toNat, s)
  else let (w, s) := s.word64; (w.toNat, s)

/-- Draw words until the low part of a product with the bound is not below the threshold. -/
def product (width bound threshold : Nat) : (fuel : Nat) → Nat → Congruential → Nat × Congruential
  | 0, m, s => (m, s)
  | fuel + 1, m, s =>
    if m % twoTo width < threshold then
      let (w, s) := s.word width
      product width bound threshold fuel (w * bound) s
    else (m, s)

/-- How often a word is drawn again at the most. Fewer than half of all words are refused, so that
many refusals in a row do not happen. -/
def patience : Nat := 256

/-- The next natural below a bound that is drawn with words of some width. -/
def scaled (width bound : Nat) (s : Congruential) : Nat × Congruential :=
  let (w, s) := s.word width
  let m := w * bound
  let (m, s) :=
    if m % twoTo width < bound then
      product width bound ((twoTo width - bound) % bound) patience m s
    else (m, s)
  (m / twoTo width, s)

/-- The next natural below a bound. The bound one needs no draw, and the bound `2 ^ 32` is a word. -/
def below (bound : Nat) (h : 0 < bound) (s : Congruential) : Fin bound × Congruential :=
  let (n, s) :=
    if bound = 1 then (0, s)
    else if bound = twoTo 32 then s.word 32
    else scaled (if bound < twoTo 32 then 32 else 64) bound s
  (⟨n % bound, Nat.mod_lt n h⟩, s)

/-- The next signed 64-bit integer. -/
def long (s : Congruential) : Int × Congruential :=
  let (w, s) := s.word64
  ((w.toNat : Int) - twoTo 63, s)

/-- The next fraction: 53 bits of a word. -/
def fraction (s : Congruential) : Float × Congruential :=
  let (w, s) := s.word64
  (Float.ofScientific (w >>> 11).toNat false 0 / 9007199254740992.0, s)

/-- One way to draw a number of the standard normal distribution: two fractions in polar form. -/
def polar (s : Congruential) : Float × Congruential :=
  let (u, s) := s.fraction
  let (v, s) := s.fraction
  (Float.sqrt (-2.0 * Float.log (1.0 - u)) * Float.cos (6.283185307179586 * v), s)

end Congruential

/-! ## The source -/

/-- A source that a seed determines. -/
structure Seeded where
  generator : Congruential
  /-- How a number of the standard normal distribution is drawn from the generator. -/
  normal : Congruential → Float × Congruential

namespace Seeded

/-- A draw from the generator of a source. -/
def draw {α : Type} (f : Congruential → α × Congruential) (s : Seeded) : α × Seeded :=
  let (a, g) := f s.generator
  (a, { s with generator := g })

instance : Source Seeded where
  long := draw Congruential.long
  below bound h := draw (Congruential.below bound h)
  fraction := draw Congruential.fraction
  normal s := s.draw s.normal
  reach _ := some (twoTo 63)

end Seeded

end RecordForge
