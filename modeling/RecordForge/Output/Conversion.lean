import RecordForge.Failure
import RecordForge.Number.Numeral
import RecordForge.Output.Column

/-!
# Columns of values that do not suit them

A column takes other values than those of its kind if they can be made such values: numbers out of
texts, texts out of numbers, integers out of floating-point numbers without a fraction. Which of them it
takes depends on the whole column.

* `ColumnType.convert`: a column as it is stored.
-/

namespace RecordForge.ColumnType

/-! ## Kinds of values -/

/-- Whether a value is null. -/
def isNull : Value → Bool
  | .null => true
  | _ => false

/-- Whether a value is a text. -/
def isText : Value → Bool
  | .text _ => true
  | _ => false

/-- Whether a value is an integer. -/
def isInt : Value → Bool
  | .int _ => true
  | _ => false

/-- Whether a value is a Boolean. -/
def isBool : Value → Bool
  | .bool _ => true
  | _ => false

/-- Whether a value is a floating-point number. -/
def isFloat : Value → Bool
  | .float _ => true
  | _ => false

/-- Whether a value is stored as null: it is null, or a floating-point value that is no number. -/
def isMissing : Value → Bool
  | .null => true
  | .float x => x.isNaN
  | _ => false

/-- Whether a value is infinite. -/
def isInfinite : Value → Bool
  | .float x => x.isInf
  | _ => false

/-! ## Columns of floating-point numbers -/

/-- A value made a floating-point number, rounded for its column. -/
def realOf (round : Float → Float) : Value → Except Failure Value
  | .null => .ok .null
  | .float x => .ok (storeFloat (round x))
  | .bool b => .ok (.float (if b then 1.0 else 0.0))
  | .int n =>
    let x := Float.ofInt n
    if x.isInf then .error (.defect .tooGreat) else .ok (storeFloat (round x))
  | .text s =>
    match Numeral.real? s.toList with
    | some x => .ok (storeFloat (round x))
    | none => .error (.defect (.malformedNumber s))

/-! ## Columns of texts -/

/-- A value made a text. -/
def textOf (v : Value) : Value :=
  match v with
  | .text s => .text s
  | v => if isMissing v then .null else .text (Document.renderValue v)

/-! ## Columns of integers -/

/-- The integer that a number without a fraction is. -/
def whole? : Value → Option Int
  | .int n => some n
  | .bool b => some (if b then 1 else 0)
  | .float x =>
    (Binary.decode? x).bind fun d =>
      let n := Binary.truncate d
      if x == Float.ofInt n then some n else none
  | _ => none

/-- A number made an integer that a column holds. -/
def wholeOf (holds : Int → Bool) (v : Value) : Except Failure Value :=
  if isMissing v then .ok .null
  else match whole? v with
    | some n => if holds n then .ok (.int n) else .error (.defect .illTyped)
    | none => .error (.defect .illTyped)

/-- A value read as an integer that a column holds. -/
def readOf (holds : Int → Bool) (v : Value) : Except Failure Value :=
  let s := match v with
    | .text s => s
    | v => Document.renderValue v
  match Numeral.integer? s.toList with
  | .ok n => if holds n then .ok (.int n) else .error (.defect .tooGreat)
  | .error _ => .error (.defect (.malformedNumber s))

/-- A value that a column of integers judges by itself: an integer must not be too great, and a text has
to be read as one. -/
def judge (holds : Int → Bool) (v : Value) : Except Failure Value :=
  match v with
  | .text _ => readOf holds v
  | .int n => if holds n then .ok v else .error (.defect .tooGreat)
  | _ => if isInfinite v then .error (.defect .tooGreat) else .ok v

/-- A column with texts among its values. Without null all of them are read as texts; with null the
texts must not stand beside numbers. -/
def readAll (holds : Int → Bool) (vs : List Value) : Except Failure (List Value) :=
  if !vs.any isNull then vs.mapM (readOf holds)
  else if (vs.filter fun v => !isMissing v).all isText then
    vs.mapM fun v => if isMissing v then .ok .null else readOf holds v
  else if vs.any isInt then (vs.mapM (judge holds)).bind fun _ => .error (.defect .illTyped)
  else .error (.defect .illTyped)

/-- Whether an integer is beyond 64 bits, with a sign or without. -/
def isBeyondWords (n : Int) : Bool := n < Word.minLong || Word.count ≤ n

/-- A column of numbers. What is too great is told apart from what has a fraction or does not fit. -/
def wholeAll (holds : Int → Bool) (vs : List Value) : Except Failure (List Value) :=
  let isTooGreat : Bool :=
    if vs.any isNull then vs.any fun v => isInfinite v || (isInt v && !(whole? v).all holds)
    else if vs.any isFloat then vs.any fun v => match v with
      | .float x => x.isInf && x > 0.0
      | _ => false
    else vs.any fun v => (whole? v).any isBeyondWords
  let isMixed := vs.any isNull && !vs.any isInt && vs.any isBool && vs.any isFloat
  if isMixed then .error (.defect .illTyped)
  else if isTooGreat then .error (.defect .tooGreat)
  else vs.mapM (wholeOf holds)

/-- A column of integers. -/
def wholeColumn (holds : Int → Bool) (vs : List Value) : Except Failure (List Value) :=
  if vs.any isText then readAll holds vs else wholeAll holds vs

/-! ## Columns -/

/-- A column of values of which not all suit it. -/
def convertMixed (t : ColumnType) (vs : List Value) : Except Failure (List Value) :=
  match t with
  | int32 => wholeColumn (fun n => decide (Word.IsInt n)) vs
  | int64 => wholeColumn (fun n => decide (Word.IsLong n)) vs
  | float32 => vs.mapM (realOf Binary.toSingle)
  | float64 => vs.mapM (realOf id)
  | string => .ok (vs.map textOf)
  | object => .ok vs

/-- A column as it is stored. -/
def convert (t : ColumnType) (vs : List Value) : Except Failure (List Value) :=
  match vs.mapM t.store? with
  | some stored => .ok stored
  | none => t.convertMixed vs

end RecordForge.ColumnType
