import RecordForge.Failure
import RecordForge.Number.Numeral
import RecordForge.Text.Word

/-!
# Command-line arguments

* `Switch`: the options by name.
* `Token`: what a single argument is taken for, before its neighbours are looked at.
* `readArguments`: the arguments of a run, or why there is none.

A long option may be cut short as long as it stays the only one that starts so. A value follows its
option, or is joined to it: by an equals sign, or directly to an option of one letter. Of an option
given twice the last value counts.
-/

namespace RecordForge

/-- An option of the command line. -/
inductive Switch where
  | help
  | schema
  | result
  | settings
  | count
  | seed
  | format
  | noProgress
  | verbose
  deriving DecidableEq, Repr

namespace Switch

/-- Every option under its names. -/
def names : List (String × Switch) :=
  [("-h", help), ("--help", help), ("--schema", schema), ("-s", schema), ("--result", result),
    ("-r", result), ("--settings", settings), ("--count", count), ("-n", count), ("--seed", seed),
    ("--format", format), ("--no-progress", noProgress), ("--verbose", verbose)]

/-- Whether a value follows an option. -/
def takesValue : Switch → Bool
  | help | noProgress | verbose => false
  | _ => true

end Switch

/-- What an argument is taken for. -/
inductive Token where
  /-- A value. -/
  | value (s : String)
  /-- Two dashes, after which everything is a value. -/
  | dashes
  /-- An option by one of its names, perhaps with a value joined to it. -/
  | switch (name : String) (s : Switch) (joined : Option String)
  /-- An option that does not exist. -/
  | unknown (s : String)

/-- The arguments of a run. -/
structure Arguments where
  schema : String
  result : Option String := none
  settings : Option String := none
  count : Option Int := none
  seed : Option Int := none
  format : Option Format := none
  hidesProgress : Bool := false
  verbose : Bool := false

/-- Why there are no arguments of a run. -/
inductive Usage where
  /-- The help text was asked for. -/
  | help
  /-- The arguments are wrong. -/
  | wrong
  deriving DecidableEq, Repr

/-- The exit code of a program that shows how it is used. -/
def Usage.code : Usage → Nat
  | help => 0
  | wrong => 2

namespace Token

/-- A text cut at its first equals sign, if it has one. -/
def cutEquals? (s : List Char) : Option (List Char × List Char) :=
  if s.contains '=' then some (s.takeWhile (· != '='), (s.dropWhile (· != '=')).drop 1) else none

/-- The options that a cut-short or joined argument may mean. -/
def candidates (s : List Char) : List Token :=
  let start := Switch.names.filterMap
  match s with
  | '-' :: '-' :: _ =>
    let (before, joined) := match cutEquals? s with
      | some (a, b) => (a, some (String.ofList b))
      | none => (s, none)
    start fun (name, o) =>
      if before.isPrefixOf name.toList then some (.switch name o joined) else none
  | _ =>
    start fun (name, o) =>
      if name.toList = s.take 2 then some (.switch name o (some (String.ofList (s.drop 2))))
      else if s.isPrefixOf name.toList then some (.switch name o none)
      else none

/-- Whether a text is a negative number without an exponent. One last line feed is let pass. -/
def isNegativeNumber (s : List Char) : Bool :=
  match if s.getLast? = some '\n' then s.dropLast else s with
  | '-' :: s =>
    match Text.afterDigits s with
    | [] => !s.isEmpty
    | '.' :: t => !t.isEmpty && t.all Text.isDigit
    | _ => false
  | _ => false

/-- What an argument before any two dashes is taken for. An argument that may mean several options is
wrong. -/
def ofArgument (arg : String) : Except Usage Token :=
  let s := arg.toList
  match s with
  | '-' :: _ :: _ =>
    match Switch.names.lookup arg with
    | some o => .ok (.switch arg o none)
    | none =>
      let joined := (cutEquals? s).bind fun (a, b) =>
        (Switch.names.lookup (String.ofList a)).map fun o =>
          Token.switch (String.ofList a) o (some (String.ofList b))
      match joined with
      | some t => .ok t
      | none =>
        match candidates s with
        | _ :: _ :: _ => .error .wrong
        | [t] => .ok t
        | [] =>
          if isNegativeNumber s || s.contains ' ' then .ok (.value arg) else .ok (.unknown arg)
  | _ => .ok (.value arg)

/-- What each argument is taken for. -/
def ofArguments : List String → Except Usage (List Token)
  | [] => .ok []
  | "--" :: rest => .ok (.dashes :: rest.map .value)
  | arg :: rest => do
    let t ← ofArgument arg
    let ts ← ofArguments rest
    return t :: ts

end Token

/-- Arguments as far as they have been read. -/
structure Reading where
  schema : Option String := none
  arguments : Arguments := { schema := "" }
  /-- Whether there was an argument that belongs to no option. -/
  extra : Bool := false

namespace Reading

/-- The arguments with an integer option. -/
def withInteger (value : String) (set : Int → Arguments) : Except Usage Arguments :=
  match Numeral.integer? value.toList with
  | .ok n => .ok (set n)
  | .error _ => .error .wrong

/-- The reading after an option with its value. -/
def withValue (r : Reading) (s : Switch) (value : String) : Except Usage Reading :=
  let a := r.arguments
  match s with
  | .schema => .ok { r with schema := some value }
  | .result => .ok { r with arguments := { a with result := some value } }
  | .settings => .ok { r with arguments := { a with settings := some value } }
  | .count => do
    let a ← withInteger value fun n => { a with count := some n }
    return { r with arguments := a }
  | .seed => do
    let a ← withInteger value fun n => { a with seed := some n }
    return { r with arguments := a }
  | .format =>
    match Format.ofName? value with
    | some f => .ok { r with arguments := { a with format := some f } }
    | none => .error .wrong
  | _ => .error .wrong

/-- The reading after an option without a value. -/
def withFlag (r : Reading) (s : Switch) : Except Usage Reading :=
  match s with
  | .help => .error .help
  | .noProgress => .ok { r with arguments := { r.arguments with hidesProgress := true } }
  | .verbose => .ok { r with arguments := { r.arguments with verbose := true } }
  | _ => .error .wrong

/-- The flags that letters joined to a flag of one letter stand for. The last of them may be an option
with the rest as its value, or with a value that follows. -/
def spread : (letters : List Char) → Except Usage (List Switch × Option (Switch × Option String))
  | [] => .ok ([], none)
  | c :: rest =>
    match Switch.names.lookup (String.ofList ['-', c]) with
    | none => .error .wrong
    | some s =>
      if s.takesValue then
        .ok ([], some (s, if rest.isEmpty then none else some (String.ofList rest)))
      else (spread rest).map fun (flags, last) => (s :: flags, last)

/-- The reading after several flags. -/
def withFlags (r : Reading) : List Switch → Except Usage Reading
  | [] => .ok r
  | s :: rest => do
    let r ← r.withFlag s
    withFlags r rest

/-- Whether a name is of one letter. -/
def isShort (name : String) : Bool := name.toList.getD 1 '-' != '-'

/-- Read what arguments have been taken for. -/
def readTokens (r : Reading) : List Token → Except Usage Reading
  | [] => .ok r
  | .switch name s joined :: rest =>
    if s.takesValue then
      match joined, rest with
      | some v, rest => (r.withValue s v).bind fun r => readTokens r rest
      | none, .value v :: rest => (r.withValue s v).bind fun r => readTokens r rest
      | none, _ => .error .wrong
    else
      match joined with
      | none => (r.withFlag s).bind fun r => readTokens r rest
      | some letters =>
        if !isShort name || letters.isEmpty then .error .wrong
        else match spread letters.toList, rest with
          | .error e, _ => .error e
          | .ok (flags, none), rest => (r.withFlags (s :: flags)).bind fun r => readTokens r rest
          | .ok (flags, some (o, some v)), rest =>
            ((r.withFlags (s :: flags)).bind fun r => r.withValue o v).bind fun r => readTokens r rest
          | .ok (flags, some (o, none)), .value v :: rest =>
            ((r.withFlags (s :: flags)).bind fun r => r.withValue o v).bind fun r => readTokens r rest
          | .ok (_, some (_, none)), _ => .error .wrong
  | _ :: rest => readTokens { r with extra := true } rest

end Reading

/-- The arguments of a run. -/
def readArguments (args : List String) : Except Usage Arguments := do
  let tokens ← Token.ofArguments args
  let r ← Reading.readTokens {} tokens
  match r.schema with
  | some schema => if r.extra then throw .wrong else return { r.arguments with schema := schema }
  | none => throw .wrong

end RecordForge
