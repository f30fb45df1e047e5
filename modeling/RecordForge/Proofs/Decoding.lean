import RecordForge.Output.Writer
import RecordForge.Proofs.Encoding
import RecordForge.Proofs.Readers
import RecordForge.Proofs.Singles

/-!
# The binary decoding of Avro

A document is decoded by the type that it was encoded in. Whatever single value was encoded, something
is decoded; it is that value only if the type keeps it. A union does not keep every value that it takes:
the branch that a value is written under is found from the value alone.

* `AvroType.decode`: the reader of the documents of a type.
* `AvroType.keeps`: whether a value that is written in a type is read again as it was;
  `keeps_union_of_first` says on which branch of a union that depends.
* **`restores_of_encode`**: an encoded value is decoded as it was exactly if its type keeps it.
* `AvroSchema.restores_of_encodeRecord`: the same of records, field by field.
-/

namespace RecordForge

namespace Avro

/-- A byte. -/
def readByte : Reader UInt8
  | [] => none
  | b :: rest => some (b, rest)

/-- A document of a primitive type. No document is made of bytes. -/
def decodePrimitive : Primitive → Reader Document
  | .null => return .value .null
  | .boolean => (fun b => .value (.bool (b ≠ 0))) <$> readByte
  | .int | .long => (fun n => .value (.int n)) <$> readInt
  | .float => (fun n => .value (.float (Binary.ofSingleBits n))) <$> readLittle 4
  | .double => (fun n => .value (.float (Float.ofBits (UInt64.ofNat n)))) <$> readLittle 8
  | .string => .text <$> readText
  | .bytes => failure

/-- Whether a value that is written in a primitive type is read again as it was. -/
def keepsPrimitive : Primitive → Value → Bool
  | .null, .null => true
  | .boolean, .bool _ => true
  | .int, .int _ | .long, .int _ => true
  | .float, .float x => decide (Binary.toSingle x = x)
  | .double, .float _ => true
  | .string, .text _ => true
  | _, _ => false

end Avro

namespace AvroType

open Avro

mutual

/-- The documents of a type. A count of days is read as the integer it is. -/
def decode (named : String → Reader Document) : AvroType → Reader Document
  | primitive p => decodePrimitive p
  | days => decodePrimitive .int
  | enum symbols => do
    let i ← readNat
    match symbols[i]? with
    | some s => return .text s
    | none => failure
  | fixed _ => failure
  | array items => .list <$> readParts (decode named items)
  | map values => .dict <$> readParts do
    let key ← readText
    let d ← decode named values
    return (.text key, d)
  | union branches => do
    let i ← readNat
    decodeAt named branches i
  | record fields => .dict <$> decodeFields named fields
  | .named name => named name

/-- The documents of the type at a place. -/
def decodeAt (named : String → Reader Document) : List AvroType → Nat → Reader Document
  | [], _ => failure
  | t :: _, 0 => decode named t
  | _ :: rest, i + 1 => decodeAt named rest i

/-- The entries of the fields of a record. -/
def decodeFields (named : String → Reader Document) :
    List (AvroField AvroType) → Reader (List (Leaf × Document))
  | [] => return []
  | ⟨name, t, _, _, _⟩ :: rest => do
    let d ← decode named t
    let more ← decodeFields named rest
    return (.text name, d) :: more

end

mutual

/-- Whether a value that is written in a type is read again as it was. In a union that depends on the
branch that it is written under. -/
def keeps (kept : String → Value → Bool) : AvroType → Value → Bool
  | primitive p, v => keepsPrimitive p v
  | days, v => keepsPrimitive .int v
  | enum _, .text _ => true
  | union branches, v =>
    match branch? (fun t => t.admits v) (.value v) branches with
    | some i => keepsAt kept branches i v
    | none => false
  | .named name, v => kept name v
  | _, _ => false

/-- Whether a value that is written in the type at a place is read again as it was. -/
def keepsAt (kept : String → Value → Bool) : List AvroType → Nat → Value → Bool
  | [], _, _ => false
  | t :: _, 0, v => keeps kept t v
  | _ :: rest, i + 1, v => keepsAt kept rest i v

end

/-- **A union keeps a value as the first branch that admits it does**, whatever member it was generated
as. Only a `float` gives way to a branch after it, and only records are compared with each other. -/
theorem keeps_union_of_first {kept : String → Value → Bool} {v : Value} {t : AvroType}
    {before after : List AvroType} (hbefore : ∀ u ∈ before, u.admits v = false)
    (ht : t.admits v = true) (hfloat : t ≠ primitive .float) :
    keeps kept (union (before ++ t :: after)) v = keeps kept t v := by
  have hplace : ∀ place, branchFrom? (fun t => t.admits v) (.value v) none place
      (before ++ t :: after) = some (place + before.length) := by
    induction before with
    | nil =>
      intro place
      simp only [List.nil_append, branchFrom?, ht, if_true]
      split
      · unfold admits at ht
        cases ht
      · exact absurd rfl hfloat
      · rfl
    | cons u before ih =>
      intro place
      have hu := hbefore u List.mem_cons_self
      simp only [List.cons_append, branchFrom?, hu]
      rw [if_neg (by decide), ih (fun u' hu' => hbefore u' (List.mem_cons_of_mem u hu')),
        List.length_cons, Nat.add_right_comm, Nat.add_assoc]
  have hat : ∀ before : List AvroType,
      keepsAt kept (before ++ t :: after) before.length v = keeps kept t v := by
    intro before
    induction before with
    | nil => simp only [List.nil_append, List.length_nil, keepsAt]
    | cons u before ih =>
      simp only [List.cons_append, List.length_cons, keepsAt]
      exact ih
  simp only [keeps, branch?, hplace 0, Nat.zero_add]
  exact hat before

/-! ## Values of primitive types -/

/-- A reader that reads something from some bytes, and a value if it is kept. -/
def Restores (r : Reader Document) (bytes : List UInt8) (v : Value) (kept : Bool) : Prop :=
  ∃ d, Reads r bytes d ∧ (d = .value v ↔ kept = true)

theorem reads_byte (b : UInt8) : Reads readByte [b] b := fun _ => rfl

theorem reads_float (x : Float) : Reads (decodePrimitive .float) (littleEndian 4 (singleBits x))
    (.value (.float (Binary.toSingle x))) := by
  obtain ⟨hlt, hmake⟩ := make_singleBits x
  rw [← hmake]
  exact (readLittle_reads hlt).map

theorem reads_double (x : Float) :
    Reads (decodePrimitive .double) (littleEndian 8 x.toBits.toNat) (.value (.float x)) := by
  have h := (readLittle_reads (show x.toBits.toNat < 256 ^ 8 from x.toBits.toBitVec.isLt)).map
    (f := fun n => Document.value (.float (Float.ofBits (UInt64.ofNat n))))
  rw [UInt64.ofNat_toNat, Float.ofBits_toBits] at h
  exact h

theorem value_inj {v w : Value} : Document.value v = .value w ↔ v = w := by
  constructor
  · intro h
    cases h
    rfl
  · rintro rfl
    rfl

theorem wholeNumber_ok {v : Value} {n : Int} (h : wholeNumber (.value v) = .ok n) :
    Document.value (.int n) = .value v ↔ keepsPrimitive .int v = true := by
  rw [value_inj]
  cases v with
  | int m =>
    cases h
    exact iff_of_true rfl rfl
  | _ => exact iff_of_false nofun nofun

theorem number_ok {v : Value} {x : Float} (h : number (.value v) = .ok x) :
    v = .float x ∨ ∀ y, v ≠ .float y := by
  cases v with
  | float y =>
    cases h
    exact Or.inl rfl
  | _ => exact Or.inr nofun

theorem restores_int {v : Value} {bytes : List UInt8}
    (h : encodePrimitive .int (.value v) = .ok bytes) :
    Restores (decodePrimitive .int) bytes v (keepsPrimitive .int v) := by
  obtain ⟨n, hn, h⟩ := bind_eq_ok.mp h
  split at h
  · cases h
    exact ⟨_, (readInt_reads n).map, wholeNumber_ok hn⟩
  · cases h

/-- What is read of a number is that number if it was a floating-point one that is kept. -/
theorem float_iff {v : Value} {x y : Float} {p : Primitive} (hp : p.isReal = true)
    (hv : v = .float x ∨ ∀ z, v ≠ .float z)
    (hy : y = x ↔ keepsPrimitive p (.float x) = true) :
    Document.value (.float y) = .value v ↔ keepsPrimitive p v = true := by
  rw [value_inj]
  rcases hv with rfl | hv
  · rw [Value.float.injEq]
    exact hy
  · refine iff_of_false (fun h => hv y h.symm) fun h => ?_
    cases p with
    | float | double =>
      cases v with
      | float z => exact hv z rfl
      | _ => cases h
    | _ => cases hp

theorem keeps_float (x : Float) :
    Binary.toSingle x = x ↔ keepsPrimitive .float (.float x) = true := by
  rw [keepsPrimitive, decide_eq_true_iff]

/-- A value of a primitive type is decoded, as it was if the type keeps it. -/
theorem restores_primitive {p : Primitive} {v : Value} {bytes : List UInt8}
    (h : encodePrimitive p (.value v) = .ok bytes) :
    Restores (decodePrimitive p) bytes v (keepsPrimitive p v) := by
  cases p with
  | null =>
    cases h
    refine ⟨_, Reads.pure _, ?_⟩
    rw [value_inj]
    cases v with
    | null => exact iff_of_true rfl rfl
    | _ => exact iff_of_false nofun nofun
  | boolean =>
    cases h
    refine ⟨_, (reads_byte _).map, ?_⟩
    rw [value_inj]
    cases v with
    | bool b => cases b <;> exact iff_of_true rfl rfl
    | _ => exact iff_of_false nofun nofun
  | int => exact restores_int h
  | long =>
    have hsame : keepsPrimitive .long v = keepsPrimitive .int v := by cases v <;> rfl
    rw [hsame]
    exact restores_int h
  | float =>
    obtain ⟨x, hx, rfl⟩ := map_eq_ok.mp h
    exact ⟨_, reads_float x, float_iff rfl (number_ok hx) (keeps_float x)⟩
  | double =>
    obtain ⟨x, hx, rfl⟩ := map_eq_ok.mp h
    exact ⟨_, reads_double x, float_iff rfl (number_ok hx) (iff_of_true rfl rfl)⟩
  | string =>
    cases v with
    | text s =>
      cases h
      exact ⟨_, (readText_reads s).map, iff_of_true rfl rfl⟩
    | _ => cases h
  | bytes => cases h

theorem restores_days {v : Value} {bytes : List UInt8} (h : encodeDays (.value v) = .ok bytes) :
    Restores (decodePrimitive .int) bytes v (keepsPrimitive .int v) := by
  cases v with
  | text s =>
    simp only [encodeDays] at h
    split at h
    · cases h
      exact ⟨_, (readInt_reads _).map, iff_of_false (fun hd => by cases hd) (fun hk => by cases hk)⟩
    · cases h
  | _ => exact restores_int h

/-! ## Values of all types -/

theorem symbol_of_index {symbols : List String} {v : Value} {i : Nat}
    (h : symbolIndex? symbols (.value v) = some i) : ∃ s, v = .text s ∧ symbols[i]? = some s := by
  unfold symbolIndex? at h
  split at h
  · rename_i s hs
    cases hs
    obtain ⟨hlt, hs, -⟩ := List.findIdx?_eq_some_iff_getElem.mp h
    rw [beq_iff_eq] at hs
    exact ⟨s, rfl, by rw [List.getElem?_eq_getElem hlt, hs]⟩
  · cases h

theorem parts_of_value {v : Value} {parts : List Document} (h : parts? (.value v) = some parts) :
    ∃ s, v = .text s ∧ parts = s.toList.map fun c => .text (String.singleton c) := by
  cases v with
  | text s =>
    cases h
    exact ⟨s, rfl, rfl⟩
  | _ => cases h

/-- What records that are referred to by name restore. -/
def NamesRestore (refs : References) (named : String → Reader Document)
    (kept : String → Value → Bool) : Prop :=
  ∀ name v bytes, refs.encode name (.value v) = .ok bytes →
    Restores (named name) bytes v (kept name v)

section Values

variable {refs : References} {named : String → Reader Document} {kept : String → Value → Bool}

/-- A symbol is decoded as it was. -/
theorem restores_enum {symbols : List String} {v : Value} {bytes : List UInt8}
    (h : encode refs (enum symbols) (.value v) = .ok bytes) :
    Restores (decode named (enum symbols)) bytes v (keeps kept (enum symbols) v) := by
  simp only [encode] at h
  split at h
  · rename_i i hi
    cases h
    obtain ⟨s, rfl, hs⟩ := symbol_of_index hi
    simp only [decode, keeps]
    refine ⟨.text s, (readNat_reads i).bind_nil ?_, iff_of_true rfl rfl⟩
    rw [hs]
    exact Reads.pure _
  · cases h

mutual

/-- **An encoded value is decoded, as it was exactly if its type keeps it.** -/
theorem restores_of_encode (hnamed : NamesRestore refs named kept) :
    ∀ {t : AvroType} {v : Value} {bytes : List UInt8}, encode refs t (.value v) = .ok bytes →
      Restores (decode named t) bytes v (keeps kept t v)
  | primitive p, v, bytes, h => by
    simp only [encode] at h
    simp only [decode, keeps]
    exact restores_primitive h
  | days, v, bytes, h => by
    simp only [encode] at h
    simp only [decode, keeps]
    exact restores_days h
  | enum symbols, v, bytes, h => restores_enum h
  | fixed size, v, bytes, h => by
    simp only [encode, encodeFixed] at h
    split at h
    · split at h <;> cases h
    · cases h
  | array items, v, bytes, h => by
    simp only [encode] at h
    split at h
    · rename_i parts hparts
      obtain ⟨s, rfl, rfl⟩ := parts_of_value hparts
      have hitems : ∀ d ∈ s.toList.map fun c => Document.text (String.singleton c), ∀ b,
          encode refs items d = .ok b → ∃ x, Reads (decode named items) b x := by
        intro d hd b hb
        obtain ⟨c, -, rfl⟩ := List.mem_map.mp hd
        obtain ⟨x, hx, -⟩ := restores_of_encode hnamed hb
        exact ⟨x, hx⟩
      obtain ⟨ds, hds⟩ := readParts_reads hitems h
      simp only [decode, keeps]
      exact ⟨_, hds.map, iff_of_false nofun nofun⟩
    · cases h
  | map values, v, bytes, h => by
    simp only [encode] at h
    split at h
    · rename_i hv
      cases hv
    · cases h
      simp only [decode, keeps]
      exact ⟨_, readParts_empty.map, iff_of_false nofun nofun⟩
    · cases h
    · cases h
  | union branches, v, bytes, h => by
    simp only [encode, branch?_value] at h
    split at h
    · rename_i i hi
      obtain ⟨b, hb, rfl⟩ := map_eq_ok.mp h
      obtain ⟨d, hd, hiff⟩ := restores_of_encodeAt hnamed hb
      simp only [decode, keeps, hi]
      exact ⟨d, (readNat_reads i).bind hd, hiff⟩
    · cases h
  | record fields, v, bytes, h => by
    simp only [encode] at h
    unfold encodeUnkeyed at h
    split at h
    · cases h
    · cases h
      simp only [decode, keeps]
      exact ⟨_, (Reads.pure []).map, iff_of_false nofun nofun⟩
    · cases h
  | .named name, v, bytes, h => by
    simp only [encode] at h
    simp only [decode, keeps]
    exact hnamed name v bytes h

theorem restores_of_encodeAt (hnamed : NamesRestore refs named kept) :
    ∀ {branches : List AvroType} {i : Nat} {v : Value} {bytes : List UInt8},
      encodeAt refs branches i (.value v) = .ok bytes →
        Restores (decodeAt named branches i) bytes v (keepsAt kept branches i v)
  | [], _, _, _, h => by
    simp only [encodeAt] at h
    cases h
  | t :: _, 0, v, bytes, h => by
    simp only [encodeAt] at h
    simp only [decodeAt, keepsAt]
    exact restores_of_encode hnamed h
  | _ :: rest, i + 1, v, bytes, h => by
    simp only [encodeAt] at h
    simp only [decodeAt, keepsAt]
    exact restores_of_encodeAt hnamed h

end

/-! ## Fields -/

theorem asNumber_ok {v : Value} {d : Document} (h : asNumber (.value v) = .ok d) :
    ∃ x, d = .value (.float x) ∧ (v = .float x ∨ ∀ y, v ≠ .float y) := by
  by_cases htext : ∃ s, v = .text s
  · obtain ⟨s, rfl⟩ := htext
    simp only [asNumber] at h
    split at h
    · cases h
      exact ⟨_, rfl, Or.inr fun y hy => by cases hy⟩
    · cases h
  · have hmap : asNumber (.value v) = (number (.value v)).map fun x => .value (.float x) := by
      cases v with
      | text s => exact absurd ⟨s, rfl⟩ htext
      | _ => rfl
    rw [hmap] at h
    obtain ⟨x, hx, rfl⟩ := map_eq_ok.mp h
    exact ⟨x, rfl, number_ok hx⟩

/-- A number that a field makes of its value is decoded. -/
theorem restores_real {p : Primitive} {v : Value} {x : Float} {bytes : List UInt8}
    (hp : p.isReal = true) (hv : v = .float x ∨ ∀ y, v ≠ .float y)
    (h : encodePrimitive p (.value (.float x)) = .ok bytes) :
    Restores (decodePrimitive p) bytes v (keepsPrimitive p v) := by
  cases p with
  | float =>
    cases h
    exact ⟨_, reads_float x, float_iff hp hv (keeps_float x)⟩
  | double =>
    cases h
    exact ⟨_, reads_double x, float_iff hp hv (iff_of_true rfl rfl)⟩
  | _ => cases hp

theorem restores_field (hnamed : NamesRestore refs named kept) {f : AvroField AvroType} {r : Record}
    {v : Value} {d : Document} {bytes : List UInt8} (hreal : RealsAreBare f)
    (hv : Ledger.get? r f.name = some v) (hd : fieldDocument f (.ofRecord r) = .ok d)
    (hb : encode refs f.type d = .ok bytes) :
    Restores (decode named f.type) bytes v (keeps kept f.type v) := by
  have hthere : (Document.ofRecord r).get? f.name = some (.value v) := by
    rw [Document.get?_ofRecord, hv]
    rfl
  simp only [fieldDocument, hthere, Option.some_or] at hd
  by_cases hr : f.isReal = true
  · obtain ⟨p, hp, hpr⟩ := hreal hr
    rw [if_pos hr] at hd
    obtain ⟨x, rfl, hx⟩ := asNumber_ok hd
    rw [hp] at hb ⊢
    simp only [encode] at hb
    simp only [decode, keeps]
    exact restores_real hpr hx hb
  · rw [if_neg hr] at hd
    cases hd
    exact restores_of_encode hnamed hb

/-- An entry that was decoded for a field: it has the name of the field, and the value that a record
has there if the type of the field keeps it. -/
def Restored (kept : String → Value → Bool) (r : Record) (f : AvroField AvroType)
    (e : Leaf × Document) : Prop :=
  e.1 = .text f.name ∧
    (e.2 = .value (Writer.valueIn r f.name) ↔ keeps kept f.type (Writer.valueIn r f.name) = true)

theorem restores_fields (hnamed : NamesRestore refs named kept) {r : Record} :
    ∀ {fields : List (AvroField AvroType)} {bytes : List UInt8}, (∀ f ∈ fields, RealsAreBare f) →
      (∀ f ∈ fields, ∃ v, Ledger.get? r f.name = some v) →
      encodeFields refs fields (.ofRecord r) = .ok bytes →
        ∃ entries, Reads (decodeFields named fields) bytes entries ∧
          List.Forall₂ (Restored kept r) fields entries
  | [], _, _, _, h => by
    simp only [encodeFields] at h
    cases h
    exact ⟨[], Reads.pure [], .nil⟩
  | f :: rest, _, hreal, hthere, h => by
    simp only [encodeFields] at h
    obtain ⟨d, hd, h⟩ := bind_eq_ok.mp h
    obtain ⟨b, hb, h⟩ := bind_eq_ok.mp h
    obtain ⟨more, hmore, h⟩ := bind_eq_ok.mp h
    cases h
    obtain ⟨v, hv⟩ := hthere f List.mem_cons_self
    obtain ⟨x, hx, hiff⟩ := restores_field hnamed (hreal f List.mem_cons_self) hv hd hb
    obtain ⟨entries, hentries, hall⟩ := restores_fields hnamed
      (fun g hg => hreal g (List.mem_cons_of_mem f hg))
      (fun g hg => hthere g (List.mem_cons_of_mem f hg)) hmore
    refine ⟨(.text f.name, x) :: entries, ?_, .cons ⟨rfl, ?_⟩ hall⟩
    · simp only [decodeFields]
      exact hx.bind (hentries.bind_nil (Reads.pure _))
    · rw [Writer.valueIn, hv]
      exact hiff

end Values

end AvroType

namespace AvroSchema

/-! ## Records -/

/-- The readers of records that are referred to by name, to a depth. -/
def readers (s : AvroSchema) : (depth : Nat) → String → Avro.Reader Document
  | 0, _ => failure
  | depth + 1, name =>
    match Ledger.get? s.names name with
    | some t => t.decode (s.readers depth)
    | none => failure

/-- Whether records that are referred to by name keep a value, to a depth. -/
def kept (s : AvroSchema) : (depth : Nat) → String → Value → Bool
  | 0, _, _ => false
  | depth + 1, name, v => (Ledger.get? s.names name).any fun t => t.keeps (s.kept depth) v

/-- The reader of the records of a file. -/
def decoder (s : AvroSchema) : Avro.Reader Document := s.type.decode (s.readers referenceLimit)

/-- Whether a value that is written in a type of a schema is read again as it was. -/
def keeps (s : AvroSchema) (t : AvroType) (v : Value) : Bool := t.keeps (s.kept referenceLimit) v

theorem namesRestore (s : AvroSchema) : ∀ depth : Nat,
    AvroType.NamesRestore (s.references depth) (s.readers depth) (s.kept depth)
  | 0, _, _, _, h => by
    simp only [references] at h
    cases h
  | depth + 1, name, v, bytes, h => by
    simp only [references] at h
    split at h
    · rename_i t ht
      simp only [readers, kept, ht, Option.any_some]
      exact AvroType.restores_of_encode (s.namesRestore depth) h
    · cases h

/-- **A record is decoded, field by field, as it was exactly where the schema keeps its values.** -/
theorem restores_of_encodeRecord {d : Document} {s : AvroSchema} {fields : List (AvroField AvroType)}
    {r : Record} {bytes : List UInt8} (hd : AvroSchema.ofDocument d = .ok s)
    (hs : s.type = .record fields) (hthere : ∀ f ∈ fields, ∃ v, Ledger.get? r f.name = some v)
    (h : s.encodeRecord r = .ok bytes) :
    ∃ entries, Avro.Reads s.decoder bytes (.dict entries) ∧
      List.Forall₂ (AvroType.Restored (s.kept referenceLimit) r) fields entries := by
  rw [encodeRecord, hs] at h
  unfold Document.ofRecord at h
  simp only [AvroType.encode] at h
  obtain ⟨entries, hentries, hall⟩ := AvroType.restores_fields (s.namesRestore referenceLimit)
    (realsAreBare_of_document hd hs) hthere h
  refine ⟨entries, ?_, hall⟩
  rw [decoder, hs]
  simp only [AvroType.decode]
  exact hentries.map

end AvroSchema

end RecordForge
