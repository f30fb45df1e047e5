import Mathlib.Algebra.Ring.Nat
import Mathlib.Data.List.Forall2
import RecordForge.Avro.Encoding
import RecordForge.Proofs.Strategies

/-!
# Readers of bytes

A reader takes something from the start of some bytes and leaves the rest. It reads what was written if
it finds it there whatever follows, so that readers can be put one after the other.

* `Reader`, `Reads`: readers, and what they read.
* **`readInt_reads`, `readLittle_reads`, `readText_reads`**: numbers and texts are read as they were
  written.
* `readParts_reads`: so are sequences of parts.
-/

namespace RecordForge

namespace Avro

/-! ## Readers -/

/-- What reads something from the start of some bytes. -/
abbrev Reader (α : Type) := StateT (List UInt8) Option α

/-- A reader reads something from some bytes, whatever follows them. -/
def Reads {α : Type} (r : Reader α) (bytes : List UInt8) (a : α) : Prop :=
  ∀ rest, r.run (bytes ++ rest) = some (a, rest)

section Reads

variable {α β : Type} {r : Reader α} {a : α} {bytes bytes' : List UInt8}

theorem Reads.pure (a : α) : Reads (Pure.pure a) [] a := fun _ => rfl

theorem Reads.bind {f : α → Reader β} {b : β} (h : Reads r bytes a) (h' : Reads (f a) bytes' b) :
    Reads (r >>= f) (bytes ++ bytes') b := by
  intro rest
  rw [StateT.run_bind, List.append_assoc, h]
  exact h' rest

theorem Reads.bind_nil {f : α → Reader β} {b : β} (h : Reads r bytes a) (h' : Reads (f a) [] b) :
    Reads (r >>= f) bytes b := by
  have hall := h.bind h'
  rwa [List.append_nil] at hall

theorem Reads.map {f : α → β} (h : Reads r bytes a) : Reads (f <$> r) bytes (f a) := by
  intro rest
  rw [StateT.run_map, h]
  rfl

end Reads

/-! ## Numbers -/

/-- A natural, seven bits to a byte, least significant first. -/
def readVarint : Reader Nat
  | [] => none
  | b :: rest =>
    if b.toNat < 128 then some (b.toNat, rest)
    else (readVarint rest).map fun (n, rest) => (b.toNat - 128 + 128 * n, rest)

/-- The signed integer that a natural stands for. -/
def unzigzag (n : Nat) : Int := if n % 2 = 0 then (n / 2 : Nat) else -((n + 1) / 2 : Nat)

/-- A signed integer. -/
def readInt : Reader Int := unzigzag <$> readVarint

/-- A natural of some bytes, least significant first. -/
def readLittle : (count : Nat) → Reader Nat
  | 0, bytes => some (0, bytes)
  | _ + 1, [] => none
  | count + 1, b :: rest => (readLittle count rest).map fun (n, rest) => (b.toNat + 256 * n, rest)

theorem readVarint_reads (n : Nat) : Reads readVarint (varint n) n := by
  intro rest
  show readVarint (varint n ++ rest) = some (n, rest)
  induction n using Nat.strongRecOn with
  | ind n ih =>
    rw [varint]
    by_cases h : n < 128
    · rw [if_pos h]
      have hb : (UInt8.ofNat n).toNat = n := by
        rw [UInt8.toNat_ofNat']
        omega
      simp only [List.singleton_append, readVarint, hb, if_pos h]
    · rw [if_neg h]
      have hb : (UInt8.ofNat (n % 128 + 128)).toNat = n % 128 + 128 := by
        rw [UInt8.toNat_ofNat']
        omega
      simp only [List.cons_append, readVarint, hb]
      rw [if_neg (by omega), ih (n / 128) (by omega)]
      simp only [Option.map_some, Option.some.injEq, Prod.mk.injEq, and_true]
      omega

theorem unzigzag_zigzag (n : Int) : unzigzag (zigzag n) = n := by
  unfold unzigzag zigzag
  by_cases h : 0 ≤ n
  · rw [if_pos h, if_pos (by omega)]
    omega
  · rw [if_neg h, if_neg (by omega)]
    omega

theorem readInt_reads (n : Int) : Reads readInt (encodeInt n) n := by
  have h := (readVarint_reads (zigzag n)).map (f := unzigzag)
  rwa [unzigzag_zigzag] at h

theorem readLittle_reads : ∀ {count n : Nat}, n < 256 ^ count →
    Reads (readLittle count) (littleEndian count n) n
  | 0, n, h => by
    obtain rfl : n = 0 := by simpa using h
    exact fun rest => rfl
  | count + 1, n, h => by
    intro rest
    have hb : (UInt8.ofNat (n % 256)).toNat = n % 256 := by
      rw [UInt8.toNat_ofNat']
      omega
    have hlt : n / 256 < 256 ^ count := by
      rw [Nat.div_lt_iff_lt_mul (by decide), ← Nat.pow_succ]
      exact h
    have hread : readLittle count (littleEndian count (n / 256) ++ rest) = some (n / 256, rest) :=
      readLittle_reads hlt rest
    show readLittle (count + 1) (UInt8.ofNat (n % 256) :: (littleEndian count (n / 256) ++ rest)) = _
    rw [readLittle, hread, hb]
    simp only [Option.map_some, Option.some.injEq, Prod.mk.injEq, and_true]
    omega

/-! ## Texts -/

/-- Some bytes. -/
def readBytes (count : Nat) : Reader (List UInt8) := fun bytes =>
  if count ≤ bytes.length then some (bytes.take count, bytes.drop count) else none

/-- A natural, which is written as a signed integer. -/
def readNat : Reader Nat := do
  let n ← readInt
  if 0 ≤ n then return n.toNat else failure

/-- A text: its length in bytes and its bytes. -/
def readText : Reader String := do
  let n ← readNat
  let bytes ← readBytes n
  match String.fromUTF8? bytes.toByteArray with
  | some s => return s
  | none => failure

theorem readNat_reads (n : Nat) : Reads readNat (encodeInt n) n := by
  refine (readInt_reads n).bind_nil ?_
  rw [if_pos (Int.natCast_nonneg n), Int.toNat_natCast]
  exact Reads.pure n

theorem readBytes_reads (bytes : List UInt8) : Reads (readBytes bytes.length) bytes bytes := by
  intro rest
  show (if _ then _ else _) = _
  rw [if_pos (by simp), List.take_left, List.drop_left]

theorem toList_loop (b : ByteArray) (i : Nat) (r : List UInt8) :
    ByteArray.toList.loop b i r = r.reverse ++ b.data.toList.drop i := by
  induction hn : b.size - i generalizing i r with
  | zero =>
    have hge : ¬i < b.size := by omega
    have hlen : b.data.toList.length ≤ i := by
      have : b.data.toList.length = b.size := rfl
      omega
    rw [ByteArray.toList.loop, if_neg hge, List.drop_eq_nil_of_le hlen, List.append_nil]
  | succ n ih =>
    have hlt : i < b.size := by omega
    have hlen : i < b.data.toList.length := hlt
    have hget : b.get! i = b.data.toList[i] := getElem!_pos b.data i hlt
    rw [ByteArray.toList.loop, if_pos hlt, ih _ _ (by omega), List.reverse_cons, List.append_assoc,
      hget, List.singleton_append, ← List.drop_eq_getElem_cons hlen]

theorem toByteArray_toList (b : ByteArray) : b.toList.toByteArray = b := by
  have h := toList_loop b 0 []
  rw [List.reverse_nil, List.nil_append, List.drop_zero] at h
  rw [ByteArray.toList, h]
  refine ByteArray.ext ?_
  simp

theorem fromUTF8?_toUTF8 (s : String) : String.fromUTF8? s.toUTF8 = some s := by
  unfold String.fromUTF8?
  rw [String.toUTF8_eq_toByteArray, dif_pos s.isValidUTF8]
  rfl

theorem readText_reads (s : String) : Reads readText (encodeText s) s := by
  refine (readNat_reads _).bind ?_
  refine (readBytes_reads s.toUTF8.toList).bind_nil ?_
  rw [toByteArray_toList, fromUTF8?_toUTF8]
  exact Reads.pure s

/-! ## Sequences -/

/-- Some items, one after the other. -/
def readItems {α : Type} (read : Reader α) : (count : Nat) → Reader (List α)
  | 0 => return []
  | count + 1 => do
    let a ← read
    let rest ← readItems read count
    return a :: rest

/-- How many parts a block has. Its size follows if the count is negative. -/
def readCount : Reader Nat := do
  let n ← readInt
  if n < 0 then (fun _ => n.natAbs) <$> readInt else return n.natAbs

/-- The parts of a sequence that is written in blocks, up to an empty one. -/
def readBlocks {α : Type} (read : Reader α) : (limit : Nat) → Reader (List α)
  | 0 => failure
  | limit + 1 => do
    let count ← readCount
    if count = 0 then return []
    else
      let items ← readItems read count
      let more ← readBlocks read limit
      return items ++ more

/-- The parts of a sequence. Every block of it takes a byte at least. -/
def readParts {α : Type} (read : Reader α) : Reader (List α) := fun bytes =>
  readBlocks read (bytes.length + 1) bytes

section Sequences

variable {α β : Type} {read : Reader β}

/-- Items that are read one by one are read one after the other. -/
theorem readItems_reads {bytes : List (List UInt8)} {items : List β}
    (h : List.Forall₂ (Reads read) bytes items) :
    Reads (readItems read items.length) bytes.flatten items := by
  induction h with
  | nil => exact Reads.pure []
  | @cons b a bytes items ha _ ih =>
    refine ha.bind ?_
    exact ih.bind_nil (Reads.pure (a :: items))

theorem readCount_reads (n : Nat) : Reads readCount (encodeInt n) n := by
  refine (readInt_reads n).bind_nil ?_
  rw [if_neg (by omega), Int.natAbs_natCast]
  exact Reads.pure n

theorem readBlocks_empty (limit : Nat) : Reads (readBlocks read (limit + 1)) (encodeInt 0) [] := by
  refine (readCount_reads 0).bind_nil ?_
  rw [if_pos rfl]
  exact Reads.pure []

theorem readParts_empty : Reads (readParts read) (encodeInt 0) [] :=
  fun rest => readBlocks_empty _ rest

theorem readBlocks_reads {bytes : List (List UInt8)} {items : List β} (limit : Nat)
    (h : List.Forall₂ (Reads read) bytes items) (hne : items.length ≠ 0) :
    Reads (readBlocks read (limit + 2))
      (encodeInt items.length ++ (bytes.flatten ++ encodeInt 0)) items := by
  refine (readCount_reads items.length).bind ?_
  rw [if_neg hne]
  refine (readItems_reads h).bind ?_
  refine (readBlocks_empty limit).bind_nil ?_
  rw [List.append_nil]
  exact Reads.pure items

theorem encodeInt_ne_nil (n : Int) : encodeInt n ≠ [] := by
  unfold encodeInt
  rw [varint]
  split <;> exact List.cons_ne_nil _ _

theorem forall₂_of_mapM {encode : α → Except Failure (List UInt8)} :
    ∀ {parts : List α} {bs : List (List UInt8)}, parts.mapM encode = .ok bs →
      List.Forall₂ (fun a b => encode a = .ok b) parts bs
  | [], _, h => by
    cases h
    exact .nil
  | a :: parts, _, h => by
    rw [List.mapM_cons] at h
    obtain ⟨b, hb, h⟩ := bind_eq_ok.mp h
    obtain ⟨bs, hbs, h⟩ := bind_eq_ok.mp h
    cases h
    exact .cons hb (forall₂_of_mapM hbs)

/-- **A sequence whose parts can be read is read.** -/
theorem readParts_reads {encode : α → Except Failure (List UInt8)} {parts : List α}
    {bytes : List UInt8} (h : ∀ a ∈ parts, ∀ b, encode a = .ok b → ∃ x, Reads read b x)
    (hb : encodeBlock encode parts = .ok bytes) : ∃ items, Reads (readParts read) bytes items := by
  unfold encodeBlock at hb
  by_cases hempty : parts.isEmpty = true
  · rw [if_pos hempty] at hb
    cases hb
    exact ⟨[], readParts_empty⟩
  · rw [if_neg hempty] at hb
    obtain ⟨bs, hbs, rfl⟩ := map_eq_ok.mp hb
    obtain ⟨items, hitems, hlength⟩ : ∃ items, List.Forall₂ (Reads read) bs items ∧
        items.length = parts.length := by
      clear hempty hb
      replace hbs := forall₂_of_mapM hbs
      induction hbs with
      | nil => exact ⟨[], .nil, rfl⟩
      | @cons a b parts bs ha _ ih =>
        obtain ⟨x, hx⟩ := h a List.mem_cons_self b ha
        obtain ⟨items, hitems, hlength⟩ := ih fun a' ha' => h a' (List.mem_cons_of_mem a ha')
        exact ⟨x :: items, .cons hx hitems, congrArg (· + 1) hlength⟩
    have hne : items.length ≠ 0 := by
      rw [hlength, Ne, List.length_eq_zero_iff]
      simpa using hempty
    refine ⟨items, fun rest => ?_⟩
    have hlong : ∃ limit, (encodeInt parts.length ++ bs.flatten ++ encodeInt 0 ++ rest).length =
        limit + 1 := by
      refine ⟨_, (Nat.succ_pred_eq_of_pos (List.length_pos_of_ne_nil ?_)).symm⟩
      simp [encodeInt_ne_nil]
    obtain ⟨limit, hlimit⟩ := hlong
    show readBlocks read (_ + 1) _ = _
    rw [hlimit, ← hlength, List.append_assoc (encodeInt items.length)]
    exact readBlocks_reads limit hitems hne rest

end Sequences

end Avro

end RecordForge
