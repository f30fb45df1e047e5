import RecordForge.Avro.Blocks
import RecordForge.Proofs.Floats
import RecordForge.Proofs.Schemas

/-!
# Values in an Avro file

What a record of a run holds are single values. Whether a type accepts one of them does not depend on
the records that are referred to by name, since no record is a single value; so the branch that a value
is written under depends on the type alone.

* `AvroType.admits`: whether a type accepts a value, which is what the encoder tests (`accepts_value`).
* `AvroType.Takes`: a value can be written in a type. In a union, the branch that it is written under
  takes it.
* **`encodeRecord_of_takes`**: a record is encoded if every field takes what is there for it.
-/

namespace RecordForge

open Avro

namespace AvroType

/-! ## Accepted values -/

mutual

/-- Whether a type accepts a single value. -/
def admits : AvroType → Value → Bool
  | primitive p, v => acceptsPrimitive p (.value v)
  | days, v => acceptsDays (.value v)
  | enum symbols, v => (symbolIndex? symbols (.value v)).isSome
  | union branches, v => anyAdmits branches v
  | _, _ => false

/-- Whether one of several types accepts a single value. -/
def anyAdmits : List AvroType → Value → Bool
  | [], _ => false
  | t :: rest, v => admits t v || anyAdmits rest v

end

mutual

theorem accepts_value {named : String → Document → Bool} {v : Value} :
    ∀ t : AvroType, t.accepts named (.value v) = t.admits v
  | primitive _ | days | enum _ | fixed _ | array _ | map _ | record _ | .named _ => by
    simp only [accepts, admits]
  | union branches => by
    simp only [accepts, admits]
    exact anyAccepts_value branches

theorem anyAccepts_value {named : String → Document → Bool} {v : Value} :
    ∀ branches : List AvroType, anyAccepts named branches (.value v) = anyAdmits branches v
  | [] => by simp only [anyAccepts, anyAdmits]
  | t :: rest => by
    simp only [anyAccepts, anyAdmits]
    rw [accepts_value t, anyAccepts_value rest]

end

/-! ## Values that can be written -/

mutual

/-- A value can be written in a type. A text that is taken for a day has to name one. -/
def Takes : AvroType → Value → Prop
  | primitive p, v => acceptsPrimitive p (.value v) = true
  | days, .text s => (Calendar.Date.ofIso? s).isSome = true
  | days, v => acceptsPrimitive .int (.value v) = true
  | enum symbols, v => ∃ s ∈ symbols, v = .text s
  | union branches, v => TakesFirst branches v
  | _, _ => False

/-- The first of several types that accepts a value takes it. -/
def TakesFirst : List AvroType → Value → Prop
  | [], _ => False
  | t :: rest, v => if t.admits v then Takes t v else TakesFirst rest v

end

/-! ## Branches -/

theorem encodeAt_of_getElem? {refs : References} {t : AvroType} {d : Document} :
    ∀ {branches : List AvroType} {i : Nat}, branches[i]? = some t →
      encodeAt refs branches i d = encode refs t d
  | [], _, h => by simp at h
  | u :: rest, 0, h => by
    rw [List.getElem?_cons_zero, Option.some.injEq] at h
    simp only [encodeAt, h]
  | u :: rest, i + 1, h => by
    rw [List.getElem?_cons_succ] at h
    simp only [encodeAt]
    exact encodeAt_of_getElem? h

/-- The branch of a value is chosen by the types alone. -/
theorem branch?_value {refs : References} {v : Value} {branches : List AvroType} :
    branch? (fun t => t.accepts refs.accepts (.value v)) (.value v) branches =
      branch? (fun t => t.admits v) (.value v) branches := by
  congr 1
  funext t
  exact accepts_value t

theorem isPrimitive_iff {p : Primitive} {t : AvroType} : isPrimitive p t = true ↔ t = primitive p := by
  cases t with
  | primitive q => simp [isPrimitive]
  | _ => simp [isPrimitive]

theorem takes_double_of_float {v : Value} (h : Takes (primitive .float) v) :
    Takes (primitive .double) v := by
  unfold Takes at h ⊢
  cases v with
  | int n => rfl
  | float x => rfl
  | _ => cases h

/-- A value that the first of some types that accepts it takes is written under one of them that
takes it. -/
theorem branchFrom?_of_takesFirst {v : Value} {d : Document} : ∀ {branches : List AvroType} {place : Nat},
    TakesFirst branches v → ∃ i t, branches[i]? = some t ∧ Takes t v ∧
      branchFrom? (fun t => t.admits v) d none place branches = some (place + i)
  | [], _, h => by
    unfold TakesFirst at h
    exact h.elim
  | t :: rest, place, h => by
    unfold TakesFirst at h
    by_cases ht : t.admits v = true
    · rw [if_pos ht] at h
      simp only [branchFrom?, ht, if_true]
      split
      · unfold admits at ht
        cases ht
      · split
        · rename_i j hj
          obtain ⟨hlt, hd, -⟩ := List.findIdx?_eq_some_iff_getElem.mp hj
          refine ⟨j + 1, primitive .double, ?_, takes_double_of_float h, by rw [Nat.add_right_comm, Nat.add_assoc]⟩
          rw [List.getElem?_cons_succ, List.getElem?_eq_getElem hlt, isPrimitive_iff.mp hd]
        · exact ⟨0, _, rfl, h, rfl⟩
      · exact ⟨0, t, rfl, h, rfl⟩
    · rw [if_neg ht] at h
      simp only [branchFrom?, ht]
      obtain ⟨i, u, hi, hu, hb⟩ := @branchFrom?_of_takesFirst v d rest (place + 1) h
      exact ⟨i + 1, u, hi, hu, by rw [if_neg (by simp), hb, Nat.add_right_comm, Nat.add_assoc]⟩

/-! ## Encoding -/

/-- An integer of a value is one of 64 bits. -/
def Words (v : Value) : Prop := ∀ n, v = .int n → Word.IsLong n

theorem number_of_isLong {n : Int} (h : Word.IsLong n) :
    number (.value (.int n)) = .ok (Float.ofInt n) := by
  have hinf := Binary.isInf_ofInt h
  simp only [number, Document.integer?, hinf]
  rfl

theorem encodePrimitive_of_accepts {p : Primitive} {v : Value}
    (h : acceptsPrimitive p (.value v) = true) (hv : Words v) :
    ∃ bytes, encodePrimitive p (.value v) = .ok bytes := by
  cases p with
  | null => exact ⟨_, rfl⟩
  | boolean => exact ⟨_, rfl⟩
  | int | long =>
    cases v with
    | int n => exact ⟨_, if_pos (hv n rfl)⟩
    | _ => cases h
  | float | double =>
    cases v with
    | int n => exact ⟨_, by rw [encodePrimitive, number_of_isLong (hv n rfl)]; rfl⟩
    | float x => exact ⟨_, rfl⟩
    | _ => cases h
  | string =>
    cases v with
    | text s => exact ⟨_, rfl⟩
    | _ => cases h
  | bytes => cases v <;> cases h

theorem encodeDays_of_takes {v : Value} (h : Takes days v) (hv : Words v) :
    ∃ bytes, encodeDays (.value v) = .ok bytes := by
  cases v with
  | text s =>
    simp only [Takes] at h
    obtain ⟨date, hd⟩ := Option.isSome_iff_exists.mp h
    exact ⟨_, by rw [encodeDays, hd]⟩
  | _ =>
    simp only [Takes] at h
    exact encodePrimitive_of_accepts h hv

theorem symbolIndex?_of_mem {symbols : List String} {s : String} (h : s ∈ symbols) :
    ∃ i, symbolIndex? symbols (.text s) = some i := by
  simp only [symbolIndex?]
  refine Option.isSome_iff_exists.mp ?_
  rw [List.findIdx?_isSome]
  exact List.any_eq_true.mpr ⟨s, h, beq_self_eq_true s⟩

mutual

/-- A value that a type takes is encoded. -/
theorem encode_of_takes {refs : References} {v : Value} (hv : Words v) :
    ∀ {t : AvroType}, Takes t v → ∃ bytes, encode refs t (.value v) = .ok bytes
  | primitive p, h => by
    simp only [Takes] at h
    simp only [encode]
    exact encodePrimitive_of_accepts h hv
  | days, h => by
    simp only [encode]
    exact encodeDays_of_takes h hv
  | enum symbols, h => by
    obtain ⟨s, hs, rfl⟩ := h
    obtain ⟨i, hi⟩ := symbolIndex?_of_mem hs
    exact ⟨encodeInt i, by simp only [encode, hi]⟩
  | union branches, h => by
    unfold Takes at h
    obtain ⟨i, t, ht, htakes, hb⟩ := @branchFrom?_of_takesFirst v (.value v) branches 0 h
    obtain ⟨bytes, hbytes⟩ := encode_of_mem_takes hv t (List.mem_of_getElem? ht) htakes
    refine ⟨encodeInt (0 + i : Nat) ++ bytes, ?_⟩
    simp only [encode, branch?_value]
    rw [branch?, hb]
    simp only [Nat.zero_add]
    rw [encodeAt_of_getElem? ht, hbytes]
    rfl
  | fixed _, h | array _, h | map _, h | record _, h | .named _, h => by
    simp only [Takes] at h

theorem encode_of_mem_takes {refs : References} {v : Value} (hv : Words v) :
    ∀ {branches : List AvroType}, ∀ t ∈ branches, Takes t v →
      ∃ bytes, encode refs t (.value v) = .ok bytes
  | [], _, hmem => absurd hmem List.not_mem_nil
  | u :: rest, t, hmem => fun h => by
    rcases List.mem_cons.mp hmem with he | hmem
    · rw [he] at h ⊢
      exact encode_of_takes hv h
    · exact encode_of_mem_takes hv t hmem h

end

/-! ## Records -/

/-- A field has, in a record, a value that its type takes. -/
def HasTaken (r : Record) (f : AvroField AvroType) : Prop :=
  ∃ v, Ledger.get? r f.name = some v ∧ f.type.Takes v ∧ Words v

theorem asNumber_of_accepts {p : Primitive} {v : Value} (hp : p.isReal = true)
    (h : acceptsPrimitive p (.value v) = true) (hv : Words v) :
    ∃ x, asNumber (.value v) = .ok (.value (.float x)) := by
  cases p with
  | float | double =>
    cases v with
    | int n => exact ⟨_, by rw [asNumber, number_of_isLong (hv n rfl)]; rfl; nofun⟩
    | float x => exact ⟨_, rfl⟩
    | _ => cases h
  | _ => cases hp

theorem encodeReal {p : Primitive} (hp : p.isReal = true) (x : Float) :
    ∃ bytes, encodePrimitive p (.value (.float x)) = .ok bytes := by
  cases p with
  | float | double => exact ⟨_, rfl⟩
  | _ => cases hp

theorem encodeField_of_taken {refs : References} {f : AvroField AvroType} {r : Record}
    (hreal : RealsAreBare f) (h : HasTaken r f) :
    ∃ d bytes, fieldDocument f (.ofRecord r) = .ok d ∧ encode refs f.type d = .ok bytes := by
  obtain ⟨v, hget, htakes, hv⟩ := h
  have hthere : (Document.ofRecord r).get? f.name = some (.value v) := by
    rw [Document.get?_ofRecord, hget]
    rfl
  simp only [fieldDocument, hthere, Option.some_or]
  by_cases hr : f.isReal = true
  · obtain ⟨p, hp, hpr⟩ := hreal hr
    rw [hp] at htakes ⊢
    simp only [Takes] at htakes
    obtain ⟨x, hx⟩ := asNumber_of_accepts hpr htakes hv
    obtain ⟨bytes, hb⟩ := @encodeReal p hpr x
    refine ⟨_, bytes, ?_, by rw [encode, hb]⟩
    rw [if_pos hr]
    exact hx
  · obtain ⟨bytes, hb⟩ := @encode_of_takes refs v hv f.type htakes
    exact ⟨_, bytes, by rw [if_neg hr], hb⟩

theorem encodeFields_of_taken {refs : References} {r : Record} :
    ∀ {fields : List (AvroField AvroType)}, (∀ f ∈ fields, RealsAreBare f) →
      (∀ f ∈ fields, HasTaken r f) → ∃ bytes, encodeFields refs fields (.ofRecord r) = .ok bytes
  | [], _, _ => ⟨[], rfl⟩
  | f :: rest, hreal, h => by
    obtain ⟨d, bytes, hd, hb⟩ := @encodeField_of_taken refs f r
      (hreal f List.mem_cons_self) (h f List.mem_cons_self)
    obtain ⟨more, hm⟩ := @encodeFields_of_taken refs r rest
      (fun g hg => hreal g (List.mem_cons_of_mem f hg)) fun g hg => h g (List.mem_cons_of_mem f hg)
    refine ⟨bytes ++ more, ?_⟩
    simp only [encodeFields, hd, hm]
    show (encode refs f.type d >>= _) = _
    rw [hb]
    rfl

end AvroType

/-- **A record is encoded if, for every field of the schema, it has a value that the field's type
takes.** -/
theorem AvroSchema.encodeRecord_of_takes {d : Document} {s : AvroSchema}
    {fields : List (AvroField AvroType)} {r : Record} (hd : AvroSchema.ofDocument d = .ok s)
    (hs : s.type = .record fields) (h : ∀ f ∈ fields, AvroType.HasTaken r f) :
    ∃ bytes, s.encodeRecord r = .ok bytes := by
  obtain ⟨bytes, hb⟩ := @AvroType.encodeFields_of_taken (s.references AvroSchema.referenceLimit) r
    fields (AvroSchema.realsAreBare_of_document hd hs) h
  refine ⟨bytes, ?_⟩
  rw [AvroSchema.encodeRecord, hs, Document.ofRecord, AvroType.encode]
  exact hb

end RecordForge
