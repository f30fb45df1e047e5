import RecordForge.Schema.Json
import RecordForge.Schema.Parsed
import RecordForge.Text.Base64
import RecordForge.Yaml.Stamp

/-!
# What scalars mean

A plain scalar is null, a Boolean, a number, a day or a text, as its form tells; a tag may ask for one
of these, or for bytes, whatever the form.

* `ScalarType`: what a scalar may be.
* `ScalarType.ofPlain`: what a plain scalar is.
* `ScalarType.leaf`: the leaf of a text that is asked to be of a type; `leafOf`: the same in pieces.
-/

namespace RecordForge.Yaml

/-- What a scalar may be. -/
inductive ScalarType where
  | null
  | boolean
  | integer
  | real
  /-- A day or a moment. -/
  | stamp
  | bytes
  /-- The key of the entries that a mapping takes over from others. -/
  | merge
  /-- A sign that is a text as a key and has no meaning as a value. -/
  | equals
  /-- A sign that has a meaning nowhere. -/
  | reserved
  | text
  deriving DecidableEq

/-! ## Forms -/

/-- What follows the sign that a number may start with. -/
def unsigned (s : List Char) : List Char := (Numeral.sign s).2

/-- Whether a character is an ASCII digit or an underscore. -/
def isDigitOrGap (c : Char) : Bool := Json.isAsciiDigit c || c == '_'

/-- The parts of a text between colons. -/
def colonParts (s : List Char) : List (List Char) :=
  match s with
  | [] => [[]]
  | ':' :: rest => [] :: colonParts rest
  | c :: rest =>
    match colonParts rest with
    | first :: more => (c :: first) :: more
    | [] => [[c]]

/-- Whether a text is a number below sixty in one digit or two. -/
def isSixtieth : List Char → Bool
  | [d] => Json.isAsciiDigit d
  | [d, e] => '0' ≤ d && d ≤ '5' && Json.isAsciiDigit e
  | _ => false

/-- Whether a text has the form of digits that do not start with an underscore. -/
def isDigits : List Char → Bool
  | c :: rest => Json.isAsciiDigit c && rest.all isDigitOrGap
  | [] => false

/-- Whether a text has the form of an integer: binary, octal, hexadecimal, decimal, or in base sixty
with colons. -/
def isInteger (s : List Char) : Bool :=
  match unsigned s with
  | '0' :: 'b' :: ds => !ds.isEmpty && ds.all fun c => c == '0' || c == '1' || c == '_'
  | '0' :: 'x' :: ds => !ds.isEmpty && ds.all fun c => (Json.hexDigit? c).isSome || c == '_'
  | '0' :: ds => ds.all fun c => ('0' ≤ c && c ≤ '7') || c == '_'
  | t =>
    match colonParts t with
    | first :: more => isDigits first && more.all isSixtieth
    | [] => false

/-- Whether a text is empty or the exponent of a real number, which needs its sign. -/
def isExponent : List Char → Bool
  | [] => true
  | e :: s :: ds =>
    (e == 'e' || e == 'E') && (s == '+' || s == '-') && !ds.isEmpty && ds.all Json.isAsciiDigit
  | _ => false

/-- Whether a text has the form of a real number in digits: it needs a point, a sign needs a digit
before the point, and so does base sixty, which has no exponent. -/
def isRealDigits (s : List Char) : Bool :=
  let t := unsigned s
  let whole := t.takeWhile (· != '.')
  match t.dropWhile (· != '.') with
  | '.' :: rest =>
    let places := rest.takeWhile isDigitOrGap
    let power := rest.dropWhile isDigitOrGap
    match colonParts whole with
    | [[]] => t.length == s.length && isDigits places && isExponent power
    | [ds] => isDigits ds && isExponent power
    | first :: more => isDigits first && more.all isSixtieth && power.isEmpty
    | [] => false
  | _ => false

/-- Whether a text has the form of a real number. -/
def isReal (s : List Char) : Bool :=
  [".inf", ".Inf", ".INF"].contains (String.ofList (unsigned s)) ||
    [".nan", ".NaN", ".NAN"].contains (String.ofList s) || isRealDigits s

/-- The words that are Booleans, in small letters. -/
def booleans : List (String × Bool) :=
  [("yes", true), ("no", false), ("true", true), ("false", false), ("on", true), ("off", false)]

/-- Whether a text is a word in small letters, in capitals, or with a capital first. -/
def isWord (w : String) (s : List Char) : Bool :=
  let capitals := w.toList.map Char.toUpper
  s == w.toList || s == capitals || s == capitals.take 1 ++ w.toList.drop 1

/-- What a text is that has no line end. -/
def ScalarType.ofLine (s : List Char) : ScalarType :=
  if s.isEmpty || s == ['~'] || isWord "null" s then .null
  else if booleans.any fun (w, _) => isWord w s then .boolean
  else if isReal s then .real
  else if isInteger s then .integer
  else if (Stamp.read? s).any Stamp.isPlain then .stamp
  else if s == ['<', '<'] then .merge
  else if s == ['='] then .equals
  else if [['!'], ['&'], ['*']].contains s then .reserved
  else .text

/-- A text without the line feed at its end. -/
def withoutFinalFeed (s : List Char) : List Char := if s.getLast? = some '\n' then s.dropLast else s

/-- What a plain scalar is. A line feed at its end does not count. -/
def ScalarType.ofPlain (s : List Char) : ScalarType := ofLine (withoutFinalFeed s)

/-- What a plain scalar in pieces is. One with half of a surrogate pair is a text. -/
def ScalarType.ofPieces (pieces : List Text.Piece) : ScalarType :=
  match Text.chars? pieces with
  | some s => ofPlain s
  | none => .text

/-! ## Values -/

/-- The number that digits of a base spell, if there are any and all of them are digits. -/
def inBase? (base : Nat) (ds : List Char) : Option Nat :=
  if ds.isEmpty then none
  else ds.foldlM (fun n d => ((Json.hexDigit? d).or (Text.digit? d)).bind fun v =>
    if v < base then some (n * base + v) else none) 0

/-- What digits of a base may start with after their sign: a zero and a letter of either case. -/
def afterMark (mark : Char) : List Char → List Char
  | '0' :: c :: ds => if Numeral.lowerAscii c = mark then ds else '0' :: c :: ds
  | ds => ds

/-- The integer in digits of a base that a text without underscores spells. -/
def signedInBase? (base : Nat) (mark : Char) (s : List Char) : Option Int :=
  let (negative, t) := Numeral.sign (Numeral.stripPadding s)
  (inBase? base (afterMark mark t)).map fun n => if negative then -n else n

/-- The integer that an unsigned text without underscores spells. -/
def magnitude? : List Char → Option Int
  | ['0'] => some 0
  | '0' :: 'b' :: ds => signedInBase? 2 'b' ds
  | '0' :: 'x' :: ds => signedInBase? 16 'x' ds
  | '0' :: ds => signedInBase? 8 'o' ('0' :: ds)
  | t => (colonParts t).foldlM (fun n part => (Numeral.integer? part).toOption.map (n * 60 + ·)) 0

/-- The integer that a text spells. -/
def integerLeaf (s : List Char) : Parsed Leaf :=
  let t := s.filter (· != '_')
  let (negative, digits) := Numeral.sign t
  if digits.isEmpty then .error (.defect .noSuchItem)
  else Parsed.ofOption ((magnitude? digits).map fun n => .value (.int (if negative then -n else n)))

/-- The greatest number of parts between colons that a real number may have: sixty to their number is
the power of the first. -/
def partLimit : Nat := 174

/-- The sum of real numbers, the last of which counts once and each other sixty times as much as the
one after it. -/
def sumOfSixtieths (parts : List Float) : Float :=
  (parts.reverse.foldl (fun (sum, unit) x => (sum + x * Float.ofNat unit, unit * 60)) ((0 : Float), 1)).1

/-- The real number that parts between colons spell. -/
def realOfParts (parts : List (List Char)) : Parsed Float :=
  match parts, parts.mapM Numeral.real? with
  | _, none => .error .malformed
  | [_], some [x] => .ok x
  | _, some xs => if partLimit < xs.length then .error (.defect .tooGreat) else .ok (sumOfSixtieths xs)

/-- The real number that a text spells. -/
def realLeaf (s : List Char) : Parsed Leaf :=
  let t := (s.filter (· != '_')).map Numeral.lowerAscii
  if t.isEmpty then .error (.defect .noSuchItem)
  else
    let (negative, t) := Numeral.sign t
    let x :=
      if t = ".inf".toList then .ok (Binary.infinity false)
      else if t = ".nan".toList then .ok Binary.nan
      else realOfParts (colonParts t)
    x.map fun x => .value (.float (if negative && !x.isNaN then -x else x))

/-- The Boolean that a text spells. -/
def booleanLeaf (s : List Char) : Parsed Leaf :=
  match booleans.find? fun (w, _) => s.map Numeral.lowerAscii == w.toList with
  | some (_, b) => .ok (.value (.bool b))
  | none => .error (.defect (.missingEntry (String.ofList s)))

/-- The day or the moment that a text spells. -/
def stampLeaf (s : List Char) : Parsed Leaf :=
  match Stamp.read? (withoutFinalFeed s) with
  | none => .error (.defect .noParts)
  | some t => Parsed.ofOption (t.shown?.map .other)

/-- The bytes that a text spells. -/
def bytesLeaf (s : List Char) : Parsed Leaf :=
  if s.all fun c => c.toNat < 0x80 then
    Parsed.ofOption ((Text.Base64.decode? s).map fun b => .other (Text.quotedBytes b))
  else .error .malformed

/-- The leaf of a text that is asked to be of a type. -/
def ScalarType.leaf (type : ScalarType) (s : List Char) : Parsed Leaf :=
  match type with
  | .null => .ok (.value .null)
  | .boolean => booleanLeaf s
  | .integer => integerLeaf s
  | .real => realLeaf s
  | .stamp => stampLeaf s
  | .bytes => bytesLeaf s
  | .merge | .equals | .reserved => .error .malformed
  | .text => .ok (.text (String.ofList s))

/-- The leaf of a text with half of a surrogate pair that is asked to be of a type. -/
def ScalarType.brokenLeaf (type : ScalarType) (pieces : List Text.Piece) : Parsed Leaf :=
  match type with
  | .null => .ok (.value .null)
  | .boolean => .error (.defect (.missingEntry (Text.quotedPieces pieces)))
  | .stamp => .error (.defect .noParts)
  | .text => .ok (.broken pieces)
  | _ => .error .malformed

/-- The leaf of pieces that are asked to be of a type. -/
def ScalarType.leafOf (type : ScalarType) (pieces : List Text.Piece) : Parsed Leaf :=
  match Text.chars? pieces with
  | some s => type.leaf s
  | none => type.brokenLeaf pieces

end RecordForge.Yaml
