import RecordForge.Number.Word
import RecordForge.Value

/-!
# Strategies

What an accepted command says about the values of a field: a mode, and either bounds or a set of
items to choose from.

* `Mode`: how values are picked.
* `Bounds`: the span that they are picked from.
* `Strategy`: an accepted command.
-/

namespace RecordForge

/-- How the values of a field are picked. -/
inductive Mode where
  /-- At random. -/
  | rand
  /-- One after the other. -/
  | incr
  /-- A random day. -/
  | date
  /-- At random, normally distributed. -/
  | gauss
  deriving DecidableEq, Repr

namespace Mode

/-- The word for a mode in a command. -/
def word : Mode → String
  | rand => "rand"
  | incr => "incr"
  | date => "date"
  | gauss => "gauss"

/-- Every mode. -/
def all : List Mode := [rand, incr, date, gauss]

/-- The mode with a word. -/
def ofWord? (s : String) : Option Mode := all.find? fun m => m.word == s

end Mode

/-- The span of a strategy. An upper bound is not part of it. -/
inductive Bounds where
  | none
  | integers (lower upper : Int)
  /-- The integers from a number on. -/
  | upward (lower : Int)
  | decimals (lower upper : Float)
  deriving DecidableEq

/-- An accepted command. A set of items goes before the bounds. -/
structure Strategy where
  mode : Mode := .rand
  bounds : Bounds := .none
  /-- The factor of the values of an integer span. -/
  scale : Int := 1
  /-- The number of decimals of the values of a decimal span. -/
  precision : Int := 2
  /-- The items to choose from. -/
  items : Option (List Value) := Option.none
  deriving DecidableEq

/-- The upper bound of string lengths when none is given. -/
def defaultStringUpper : Int := 32

/-- The greatest single-precision number. -/
def greatestSingle : Float := Float.ofBits 0x47EFFFFFE0000000

/-- The greatest double. -/
def greatestDouble : Float := Float.ofBits 0x7FEFFFFFFFFFFFFF

end RecordForge
