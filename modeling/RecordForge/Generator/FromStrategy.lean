import RecordForge.Command.Strategy
import RecordForge.Generator.Basic
import RecordForge.Number.Numeral
import RecordForge.Schema.Descriptor

/-!
# Generators that follow a strategy

* `Strategy.generator`: the generator of a field of some kind under a strategy.

A set of items goes before the bounds. Only the mode `incr` gives the items in order; every other
mode picks them at random. Without a set, an enum has its symbols as items.
-/

namespace RecordForge

open Calendar

namespace Generator

/-- The generator of a set of items. -/
def ofItems (mode : Mode) (items : List Value) : Generator :=
  if mode = .incr then rotate items 0 else pick items

/-- The generator of the days between two stamps. The days are the first ones of the whole buckets of
`scale` days that fit between them. -/
def ofStamps (lower upper scale : Int) (kind : Kind) : Except Failure Generator :=
  match readStamp lower, readStamp upper with
  | .outOfReach, _ => .error (.defect .dateOutOfReach)
  | _, .outOfReach => .error (.defect .dateOutOfReach)
  | .day l, .day u =>
    let width := l.daysTo u
    if scale = 0 then .error (.defect .divisionByZero)
    else
      let fallback := if kind = .int then lower else upper
      .ok (days l width scale (width.fdiv scale) fallback kind)
  | _, _ => .error (.defect .unsuited)

/-- The generator of a span of integers. -/
def ofIntegers (mode : Mode) (lower upper scale : Int) (kind : Kind) : Except Failure Generator :=
  match mode with
  | .incr => .ok (counter lower scale kind)
  | .date => ofStamps lower upper scale kind
  | _ => .ok (range lower (Word.wrap (upper - lower)) scale kind)

/-- The generator of a span of decimal numbers. -/
def ofDecimals (mode : Mode) (lower upper : Float) (precision : Int) (kind : Kind) : Generator :=
  let power := Numeral.powerOfTen precision
  let width := Binary.saturate ((upper - lower) * power)
  let shape := if mode = .gauss then Shape.normal else Shape.uniform
  decimal shape lower width power (kind == .float)

end Generator

namespace Strategy

/-- The generator of an integer field. Only the mode `incr` can do without an upper bound. -/
def integerGenerator (s : Strategy) (kind : Kind) : Except Failure Generator :=
  match s.items, s.bounds with
  | some items, _ => .ok (.ofItems s.mode items)
  | none, .integers lower upper => Generator.ofIntegers s.mode lower upper s.scale kind
  | none, .upward lower =>
    if s.mode = .incr then .ok (.counter lower s.scale kind) else .error (.defect .unsuited)
  | none, _ => .error (.defect .unsuited)

/-- The generator of a floating-point field. -/
def decimalGenerator (s : Strategy) (kind : Kind) : Except Failure Generator :=
  match s.bounds with
  | .decimals lower upper => .ok (.ofDecimals s.mode lower upper s.precision kind)
  | _ => .error (.defect .unsuited)

/-- The generator of a string field. -/
def textGenerator (s : Strategy) : Except Failure Generator :=
  match s.items, s.bounds with
  | some items, _ => .ok (.ofItems s.mode items)
  | none, .integers lower upper => .ok (.text lower (upper - lower))
  | none, _ => .error (.defect .unsuited)

/-- The generator of an enum field with some symbols. -/
def enumGenerator (s : Strategy) (symbols : List String) : Generator :=
  .ofItems s.mode (s.items.getD (symbols.map .text))

/-- The generator of a field under a strategy. -/
def generator (s : Strategy) (d : Descriptor) : Except Failure Generator :=
  match d.kind with
  | .int | .long => s.integerGenerator d.kind
  | .float | .double => s.decimalGenerator d.kind
  | .string => s.textGenerator
  | .enum => .ok (s.enumGenerator d.symbols)
  | _ => .error (.unsupported d.kind)

end Strategy

end RecordForge
