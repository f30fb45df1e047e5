import RecordForge.Avro.Blocks

/-!
# Records in blocks

Where the blocks of an Avro file end depends on how many bytes its records have, and on when they are
written. What is in them does not: one after the other they hold the records in order.

* `Cuts`: blocks that hold the records of a list in order, each record in one block.
* **`cuts_blocksOf`**: records that can be encoded are cut into blocks.
* `Cuts.total`, `Cuts.bytes`: their number and their bytes do not depend on the cuts.
-/

namespace RecordForge.Avro

/-! ## Cuts -/

/-- The bytes of a record, none if it cannot be encoded. -/
def recordBytes (s : AvroSchema) (r : Record) : List UInt8 :=
  match s.encodeRecord r with
  | .ok bytes => bytes
  | .error _ => []

/-- The block that some records make. -/
def blockOf (s : AvroSchema) (rs : List Record) : Block := ⟨rs.length, rs.flatMap (recordBytes s)⟩

/-- Whether every record of a list can be encoded. -/
def Encodable (s : AvroSchema) (rs : List Record) : Prop :=
  ∀ r ∈ rs, ∃ bytes, s.encodeRecord r = .ok bytes

/-- Some blocks hold the records of a list in order, every record in one block. -/
def Cuts (s : AvroSchema) (rs : List Record) (blocks : List Block) : Prop :=
  ∃ chunks : List (List Record), chunks.flatten = rs ∧ blocks = chunks.map (blockOf s)

theorem Cuts.append {s : AvroSchema} {rs rs' : List Record} {blocks blocks' : List Block}
    (h : Cuts s rs blocks) (h' : Cuts s rs' blocks') : Cuts s (rs ++ rs') (blocks ++ blocks') := by
  obtain ⟨chunks, rfl, rfl⟩ := h
  obtain ⟨chunks', rfl, rfl⟩ := h'
  exact ⟨chunks ++ chunks', List.flatten_append, List.map_append.symm⟩

theorem Cuts.total {s : AvroSchema} {rs : List Record} {blocks : List Block} (h : Cuts s rs blocks) :
    total blocks = rs.length := by
  obtain ⟨chunks, rfl, rfl⟩ := h
  induction chunks with
  | nil => rfl
  | cons chunk rest ih =>
    show chunk.length + Avro.total (rest.map (blockOf s)) = _
    rw [ih, List.flatten_cons, List.length_append]

theorem Cuts.bytes {s : AvroSchema} {rs : List Record} {blocks : List Block} (h : Cuts s rs blocks) :
    bytes blocks = rs.flatMap (recordBytes s) := by
  obtain ⟨chunks, rfl, rfl⟩ := h
  induction chunks with
  | nil => rfl
  | cons chunk rest ih =>
    rw [Avro.bytes] at ih ⊢
    rw [List.map_cons, List.flatMap_cons, ih, List.flatten_cons, List.flatMap_append]
    rfl

/-! ## Growing blocks -/

/-- A growing block that holds some records. -/
structure Growing.Of (s : AvroSchema) (held : List Record) (g : Growing) : Prop where
  count : g.count = held.length
  bytes : g.reversed.reverse = held.map (recordBytes s)

theorem Growing.Of.add {s : AvroSchema} {held : List Record} {g : Growing} {r : Record}
    {bytes : List UInt8} (h : g.Of s held) (hr : s.encodeRecord r = .ok bytes) :
    (g.add bytes).Of s (held ++ [r]) := by
  refine ⟨by rw [Growing.add, h.count, List.length_append]; rfl, ?_⟩
  rw [Growing.add, List.reverse_cons, h.bytes, List.map_append, List.map_singleton, recordBytes, hr]

theorem Growing.Of.close {s : AvroSchema} {held : List Record} {g : Growing} (h : g.Of s held) :
    g.close = blockOf s held := by
  rw [Growing.close, h.count, h.bytes, blockOf, List.flatMap_def]

/-- **Records that can be encoded are cut into blocks.** The block that grows at the start holds the
records before them. -/
theorem cuts_blocksOf {s : AvroSchema} : ∀ {rs held : List Record} {g : Growing},
    g.Of s held → Encodable s rs →
      (blocksOf s rs g).2 = none ∧ Cuts s (held ++ rs) (blocksOf s rs g).1
  | [], held, g, hg, _ => by
    refine ⟨rfl, ?_⟩
    rw [List.append_nil]
    unfold blocksOf
    by_cases hc : g.count = 0
    · rw [hg.count, List.length_eq_zero_iff] at hc
      subst hc
      have hzero : g.count = 0 := hg.count
      exact ⟨[], rfl, by rw [if_pos hzero]; rfl⟩
    · exact ⟨[held], by simp, by rw [if_neg hc, hg.close]; rfl⟩
  | r :: rest, held, g, hg, hrs => by
    obtain ⟨bytes, hr⟩ := hrs r List.mem_cons_self
    have hrest : Encodable s rest := fun q hq => hrs q (List.mem_cons_of_mem r hq)
    have hadd := hg.add hr
    rw [show held ++ r :: rest = held ++ [r] ++ rest by simp]
    simp only [blocksOf, hr]
    by_cases hsize : blockSize ≤ (g.add bytes).size
    · obtain ⟨hnone, hcuts⟩ := @cuts_blocksOf s rest [] {} ⟨rfl, rfl⟩ hrest
      rw [if_pos hsize]
      refine ⟨hnone, ?_⟩
      rw [← List.singleton_append (x := (g.add bytes).close)]
      refine Cuts.append ⟨[held ++ [r]], by simp, ?_⟩ hcuts
      rw [hadd.close]
      rfl
    · rw [if_neg hsize]
      exact cuts_blocksOf hadd hrest

/-- Records of which blocks are made without a failure can be encoded. -/
theorem encodable_of_blocksOf {s : AvroSchema} : ∀ {rs : List Record} {g : Growing},
    (blocksOf s rs g).2 = none → Encodable s rs
  | [], _, _ => fun r hr => absurd hr List.not_mem_nil
  | r :: rest, g, h => by
    simp only [blocksOf] at h
    split at h
    · cases h
    · rename_i bytes hr
      have hrest : Encodable s rest := by
        by_cases hsize : blockSize ≤ (g.add bytes).size
        · rw [if_pos hsize] at h
          exact encodable_of_blocksOf h
        · rw [if_neg hsize] at h
          exact encodable_of_blocksOf h
      intro q hq
      rcases List.mem_cons.mp hq with rfl | hq
      · exact ⟨bytes, hr⟩
      · exact hrest q hq

end RecordForge.Avro
