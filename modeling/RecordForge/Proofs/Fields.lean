import RecordForge.Output.Csv
import RecordForge.Output.Parquet
import RecordForge.Proofs.Names

/-!
# What a field of a file says

Comma-separated text is read by a machine that goes over its characters and knows nothing of how the text was
written. A table is read back as it is, whatever is in its fields and however many there are; so the text of a value
can be asked what it says, by reading it as an integer, as a decimal or as it stands.

* `Csv.Reader`, `Reader.step`, `Csv.read`: the machine.
* `run_field`, `run_joined`, `run_row`, `run_rows`: what it does on what is written, from any state that it can be in.
* **`read_table`**: a table is read back; `table_injective`.
* `Kind.Takes`: the values that a column of a kind is given.
* `Kind.Says`, `says_text`: what a field says, if its column is one of a kind.
* `Kind.Stores`, `stores_of_store?`: what a typed column stores. `Kind.columnar`, `ofColumn_nil`: its type.
-/

namespace RecordForge

/-! ## Reading comma-separated text -/

namespace Csv

/-- Where a reader is. -/
inductive Spot where
  /-- Before a field. -/
  | start
  /-- In a field that is not quoted. -/
  | plain
  /-- Between quotes. -/
  | quoted
  /-- After a quote that ends a field or is the first of two. -/
  | after
  deriving DecidableEq

/-- What a reader has read. -/
structure Reader where
  /-- The rows that have ended. -/
  rows : List (List (List Char)) := []
  /-- The fields of the next row that have ended. -/
  fields : List (List Char) := []
  /-- The characters of the next field. -/
  field : List Char := []
  spot : Spot := .start
  deriving DecidableEq

namespace Reader

/-- One more character of a field. -/
def take (m : Reader) (c : Char) (spot : Spot) : Reader := { m with field := m.field ++ [c], spot }

/-- The end of a field. -/
def endField (m : Reader) : Reader := ⟨m.rows, m.fields ++ [m.field], [], .start⟩

/-- The end of a row. -/
def endRow (m : Reader) : Reader := ⟨m.rows ++ [m.fields], [], [], .start⟩

/-- A character outside of quotes: a comma ends a field, and a line feed a field and a row. -/
def outside (m : Reader) (c : Char) : Reader :=
  if c = ',' then m.endField
  else if c = '\n' then m.endField.endRow
  else m.take c .plain

/-- A character. A quote counts at the start of a field and between quotes only; a line feed before the first field
is an empty row. -/
def step (m : Reader) (c : Char) : Reader :=
  match m.spot with
  | .start =>
    if c = '"' then { m with spot := .quoted }
    else if c = '\n' ∧ m.fields = [] then m.endRow
    else m.outside c
  | .plain => m.outside c
  | .quoted => if c = '"' then { m with spot := .after } else m.take c .quoted
  | .after => if c = '"' then m.take c .quoted else m.outside c

/-- The characters of a text, one after the other. -/
def run (m : Reader) (s : List Char) : Reader := s.foldl step m

/-- A reader that has all of a field. -/
def Has (m : Reader) (rows : List (List (List Char))) (fields : List (List Char)) (a : List Char) : Prop :=
  m = ⟨rows, fields, [], .start⟩ ∧ a = [] ∨ m = ⟨rows, fields, a, .plain⟩ ∨ m = ⟨rows, fields, a, .after⟩

end Reader

/-- The rows of a text, if it ends with one. -/
def read (s : List Char) : Option (List (List (List Char))) :=
  let m := ({} : Reader).run s
  if m.spot = .start ∧ m.fields = [] then some m.rows else none

section

variable {m : Reader} {rows : List (List (List Char))} {fields : List (List Char)} {a b : List Char} {d : Dialect}

open Reader

theorem run_append (m : Reader) (s t : List Char) : m.run (s ++ t) = (m.run s).run t := List.foldl_append

theorem run_cons (m : Reader) (c : Char) (s : List Char) : m.run (c :: s) = (m.step c).run s := rfl

/-- A quote inside of quotes is read where it is doubled. -/
theorem run_doubled : ∀ (a b : List Char),
    (⟨rows, fields, b, .quoted⟩ : Reader).run (doubled a) = ⟨rows, fields, b ++ a, .quoted⟩
  | [], b => by rw [List.append_nil]; rfl
  | c :: a, b => by
    have ih := run_doubled a (b ++ [c])
    rw [List.append_assoc] at ih
    rw [doubled]
    by_cases hc : c = '"'
    · rw [if_pos hc, hc, run_cons, run_cons]
      rw [hc] at ih
      exact ih
    · have hstep : (⟨rows, fields, b, .quoted⟩ : Reader).step c = ⟨rows, fields, b ++ [c], .quoted⟩ := if_neg hc
      rw [if_neg hc, run_cons, hstep]
      exact ih

/-- What is not quoted is read as it stands. -/
theorem run_plain : ∀ {a b : List Char}, (∀ c ∈ a, c ≠ ',' ∧ c ≠ '\n') →
    (⟨rows, fields, b, .plain⟩ : Reader).run a = ⟨rows, fields, b ++ a, .plain⟩
  | [], b, _ => by rw [List.append_nil]; rfl
  | c :: a, b, h => by
    obtain ⟨⟨hcomma, hline⟩, ha⟩ := List.forall_mem_cons.mp h
    have hstep : (⟨rows, fields, b, .plain⟩ : Reader).step c = ⟨rows, fields, b ++ [c], .plain⟩ := by
      show outside _ c = _
      rw [outside, if_neg hcomma, if_neg hline]
      rfl
    rw [run_cons, hstep, run_plain ha, List.append_assoc]
    rfl

theorem plain_of_needsQuotes (h : needsQuotes d a = false) : ∀ c ∈ a, c ≠ ',' ∧ c ≠ '\n' ∧ c ≠ '"' := by
  intro c hc
  have hnone := List.any_eq_false.mp h c hc
  refine ⟨?_, ?_, ?_⟩ <;>
  · rintro rfl
    exact hnone rfl

/-- **A field is read**, whatever is in it. -/
theorem run_field (d : Dialect) (a : List Char) :
    ((⟨rows, fields, [], .start⟩ : Reader).run (field d a)).Has rows fields a := by
  rw [field]
  cases hquotes : needsQuotes d a with
  | true =>
    refine Or.inr (Or.inr ?_)
    rw [if_pos rfl, List.cons_append, run_cons, run_append]
    have hstart : (⟨rows, fields, [], .start⟩ : Reader).step '"' = ⟨rows, fields, [], .quoted⟩ := rfl
    rw [hstart, run_doubled, List.nil_append]
    rfl
  | false =>
    rw [if_neg Bool.false_ne_true]
    have hplain := plain_of_needsQuotes hquotes
    cases a with
    | nil => exact Or.inl ⟨rfl, rfl⟩
    | cons c a =>
      refine Or.inr (Or.inl ?_)
      obtain ⟨⟨hcomma, hline, hquote⟩, ha⟩ := List.forall_mem_cons.mp hplain
      have hstep : (⟨rows, fields, [], .start⟩ : Reader).step c = ⟨rows, fields, [c], .plain⟩ := by
        show (if c = '"' then _ else if _ then _ else outside _ c) = _
        rw [if_neg hquote, if_neg fun h => hline h.1, outside, if_neg hcomma, if_neg hline]
        rfl
      rw [run_cons, hstep, run_plain fun x hx => ⟨(ha x hx).1, (ha x hx).2.1⟩]
      rfl

/-- A comma ends the field. -/
theorem Reader.Has.comma (h : m.Has rows fields a) : m.step ',' = ⟨rows, fields ++ [a], [], .start⟩ := by
  rcases h with ⟨rfl, rfl⟩ | rfl | rfl <;> rfl

/-- A line feed ends the field and its row, unless there is nothing in the row. -/
theorem Reader.Has.line (h : m.Has rows fields a) (hrow : fields ++ [a] ≠ [[]]) :
    m.step '\n' = ⟨rows ++ [fields ++ [a]], [], [], .start⟩ := by
  rcases h with ⟨rfl, rfl⟩ | rfl | rfl
  · cases fields with
    | nil => exact absurd rfl hrow
    | cons b fields => rfl
  · rfl
  · rfl

/-- **The fields of a row are read.** -/
theorem run_joined (d : Dialect) : ∀ {f fields : List (List Char)}, f ≠ [] → fields ++ f ≠ [[]] →
    (⟨rows, fields, [], .start⟩ : Reader).run (joined d f ++ ['\n']) = ⟨rows ++ [fields ++ f], [], [], .start⟩
  | [], _, hf, _ => absurd rfl hf
  | [a], fields, _, hrow => by
    rw [joined, run_append]
    exact (run_field d a).line hrow
  | a :: b :: f, fields, _, hrow => by
    have hsplit : fields ++ [a] ++ b :: f = fields ++ a :: b :: f := List.append_assoc _ _ _
    rw [joined.eq_3 d a (b :: f) (List.cons_ne_nil b f), List.append_assoc, List.cons_append, run_append, run_cons,
      (run_field d a).comma, run_joined d (List.cons_ne_nil b f) (by rwa [hsplit]), hsplit]

/-- **A row is read**, be it one empty field or none at all. -/
theorem run_row (d : Dialect) (f : List (List Char)) :
    (⟨rows, [], [], .start⟩ : Reader).run (row d f) = ⟨rows ++ [f], [], [], .start⟩ := by
  rw [row]
  by_cases hempty : f = [[]]
  · rw [if_pos hempty, hempty]
    rfl
  · rw [if_neg hempty]
    by_cases hnone : f = []
    · rw [hnone]
      rfl
    · exact run_joined d hnone hempty

theorem run_rows (d : Dialect) : ∀ (t rows : List (List (List Char))),
    (⟨rows, [], [], .start⟩ : Reader).run (table d t) = ⟨rows ++ t, [], [], .start⟩
  | [], rows => by rw [List.append_nil]; rfl
  | f :: t, rows => by
    rw [table, List.flatMap_cons, run_append, run_row]
    exact (run_rows d t (rows ++ [f])).trans (by rw [List.append_assoc]; rfl)

/-- **A table is read back as it is.** -/
theorem read_table (d : Dialect) (t : List (List (List Char))) : read (table d t) = some t := by
  have hrun : ({} : Reader).run (table d t) = ⟨t, [], [], .start⟩ := run_rows d t []
  rw [read, hrun]
  rfl

/-- So a table is known by its text. -/
theorem table_injective {s t : List (List (List Char))} (h : table d s = table d t) : s = t := by
  have hread := read_table d s
  rw [h, read_table] at hread
  exact (Option.some.inj hread).symm

end

end Csv

/-! ## Values of columns -/

open Decimal Binary

theorem Decimal.integer_injective {m n : Int} (h : Decimal.integer m = Decimal.integer n) : m = n := by
  have hsign : Numeral.sign (numeral m) = Numeral.sign (numeral n) := by rw [numeral, numeral, h]
  rw [sign_numeral, sign_numeral] at hsign
  obtain ⟨hnegative, hdigits⟩ := Prod.mk.inj hsign
  have hsize : m.natAbs = n.natAbs := by
    rw [← Decimal.ofDigits_digitsOf m.natAbs, hdigits, Decimal.ofDigits_digitsOf]
  have hsides : m < 0 ↔ n < 0 := decide_eq_decide.mp hnegative
  omega

namespace Kind

/-- The values that a column of a kind is given: those of the kind, and null. A kind that is only
described has none of its own. -/
def Takes : Kind → Value → Prop
  | _, .null => True
  | .int, .int n => Word.IsInt n
  | .long, .int n => Word.IsLong n
  | .float, .float _ | .double, .float _ => True
  | .string, .text _ | .enum, .text _ => True
  | _, _ => False

/-- The numbers that a field of a kind can hold. -/
def layout (k : Kind) : Layout := if k = .float then Binary.single else Binary.double

/-- A number as a field of a kind holds it: the nearest one of single precision, if the kind has no others. -/
def nearest (k : Kind) (x : Float) : Float := if k = .float then toSingle x else x

/-- A field of a kind says what a value is: it is empty for null and for what is no number, an integer is spelled in
digits, a number by a decimal that is rounded to it, and a text stands as it is. -/
def Says (k : Kind) : Value → List Char → Prop
  | .null, s => s = []
  | .int n, s => Numeral.integer? s = .ok n
  | .float x, s => if x.isNaN then s = [] else Reads k.layout (k.nearest x) (readText s).1 (readText s).2
  | .text t, s => s = t.toList
  | .bool _, _ => False

/-- A typed column of a kind stores a value: null for null and for what is no number. -/
def Stores (k : Kind) : Value → Value → Prop
  | .float x, v => v = if x.isNaN then .null else .float (k.nearest x)
  | u, v => v = u

/-- The type of a typed column. One of a kind without values of its own has no type. -/
def columnar : Option Kind → ParquetType
  | some .int => .int32
  | some .long => .int64
  | some .float => .single
  | some .double => .double
  | some .string | some .enum => .string
  | _ => .null

end Kind

namespace ColumnType

/-- How the numbers of a column are written. -/
def style (t : ColumnType) : Style := if t = float32 then singles else doubles

section

variable {t : ColumnType} {k : Kind} {v u : Value} {x : Float}

theorem isNaN_toSingle (x : Float) : (toSingle x).isNaN = x.isNaN := by
  cases hx : x.isNaN with
  | false => exact (covers_single hx).number
  | true =>
    cases hd : decode? x with
    | none => rw [toSingle_of_none hd, hx]
    | some d =>
      rw [isNaN_of_decode? hd] at hx
      cases hx

/-- The numbers of a column are those of its style. -/
theorem covers_style (t : ColumnType) (hx : x.isNaN = false) :
    t.style.Covers (if t = float32 then toSingle x else x) := by
  rw [style]
  split
  · exact covers_single hx
  · exact covers_double hx

theorem coarse_style (t : ColumnType) : Coarse t.style.layout := by
  rw [style]
  split
  · exact coarse_single
  · exact coarse_double

theorem store?_of_takes {k : Kind} {v : Value} (h : k.Takes v) :
    ∃ w, (ofKind (some k)).store? v = some w := by
  cases v with
  | null => exact ⟨.null, by cases k <;> rfl⟩
  | int n =>
    cases k with
    | int | long => exact ⟨.int n, if_pos h⟩
    | _ => exact h.elim
  | float x =>
    cases k with
    | float | double => exact ⟨_, rfl⟩
    | _ => exact h.elim
  | text s =>
    cases k with
    | string | enum => exact ⟨_, rfl⟩
    | _ => exact h.elim
  | bool b => cases k <;> exact h.elim

/-- **A column of a kind stores the values that it is given.** -/
theorem stores_of_store? (h : k.Takes v) (hu : (ofKind (some k)).store? v = some u) : k.Stores v u := by
  cases v with
  | null => cases k <;> exact (Option.some.inj hu).symm
  | bool b => cases k <;> exact h.elim
  | int n =>
    cases k with
    | int => exact (Option.some.inj ((if_pos (show Word.IsInt n from h)).symm.trans hu)).symm
    | long => exact (Option.some.inj ((if_pos (show Word.IsLong n from h)).symm.trans hu)).symm
    | _ => exact h.elim
  | float x =>
    cases k with
    | float =>
      obtain rfl := Option.some.inj hu
      rw [Kind.Stores, storeFloat, isNaN_toSingle]
      rfl
    | double => exact (Option.some.inj hu).symm
    | _ => exact h.elim
  | text s =>
    cases k with
    | string | enum => exact (Option.some.inj hu).symm
    | _ => exact h.elim

/-- The type of a typed column without values follows from its kind. -/
theorem ofColumn_nil (k : Option Kind) : ParquetType.ofColumn (ofKind k) [] = Kind.columnar k := by
  cases k with
  | none => rfl
  | some k => cases k <;> rfl

/-- **The text of a value says what it is.** -/
theorem says_text (h : k.Takes v) (hu : (ofKind (some k)).store? v = some u) :
    k.Says v ((ofKind (some k)).text u).toList := by
  have hstored := stores_of_store? h hu
  cases v with
  | null =>
    obtain rfl : u = .null := hstored
    rfl
  | bool b => cases k <;> exact h.elim
  | int n =>
    obtain rfl : u = .int n := hstored
    have hlong : Word.IsLong n := by
      cases k with
      | int => exact Word.IsInt.isLong h
      | long => exact h
      | _ => exact h.elim
    exact integer?_of_isLong hlong
  | float x =>
    have hnumber (hk : k = .float ∨ k = .double) : k.Says (.float x) ((ofKind (some k)).text u).toList := by
      obtain rfl : u = if x.isNaN then .null else .float (k.nearest x) := hstored
      rw [Kind.Says]
      cases hx : x.isNaN with
      | true => rfl
      | false =>
        have hreads := reads_shortestText (coarse_style (ofKind (some k))) (covers_style _ hx)
        rcases hk with rfl | rfl <;> exact hreads
    cases k with
    | float => exact hnumber (Or.inl rfl)
    | double => exact hnumber (Or.inr rfl)
    | _ => exact h.elim
  | text s =>
    obtain rfl : u = .text s := hstored
    rfl

end

end ColumnType

end RecordForge
