import RecordForge.Value

/-!
# Help for strategy commands

The text that is shown when a question for a strategy is answered with `help`.
-/

namespace RecordForge.Command

/-- What follows the first line of the help for an integer field. -/
def integerUsage : String :=
  "  Options:\n" ++
  "    rand     : integers are randomly distributed.\n" ++
  "    incr     : increments by one for each record.\n" ++
  "    date     : random day in span, bounds given as YYYYMMDD.\n" ++
  "    from     : the lower bound (inclusive) in span.\n" ++
  "    to       : the upper bound (exclusive) in span.\n" ++
  "    scale    : factor to multiply each value in span with.\n" ++
  "    in       : set of integers to select from.\n" ++
  "  Example: [incr|rand|date] (from <integer>) (to <integer>) (scale <integer>) " ++
  "(in <integer, integer...>)"

/-- What follows the first line of the help for a floating-point field. -/
def decimalUsage : String :=
  "  Options:\n" ++
  "    rand     : decimals are randomly distributed.\n" ++
  "    gauss    : decimals use gaussian distribution.\n" ++
  "    from     : the lower bound (inclusive) in span.\n" ++
  "    to       : the upper bound (exclusive) in span.\n" ++
  "    prec     : the decimal precision.\n" ++
  "  Example: [rand|gauss] (from <decimal>) (to <decimal>) (prec <integer>)"

/-- What follows the first line of the help for a string field. -/
def stringUsage : String :=
  "  Options:\n" ++
  "    rand     : strings are randomly distributed.\n" ++
  "    incr     : selects string by rotating over the set.\n" ++
  "    from     : minimum (inclusive) length of string.\n" ++
  "    to       : maximum (exclusive) length of string.\n" ++
  "    in       : set of strings to select from.\n" ++
  "  Example: [incr|rand] (from <integer>) (to <integer>) (in <string, string...>)"

/-- What follows the first line of the help for an enum field. -/
def enumUsage : String :=
  "  Options:\n" ++
  "    rand     : symbols are randomly distributed.\n" ++
  "    incr     : rotates over the symbols for each record.\n" ++
  "    in       : subset of symbols to select from.\n" ++
  "  Example: [incr|rand] (in <symbol, symbol...>)"

/-- What is generated for a kind, and the rest of its help; nothing for a kind without a grammar. -/
def usageParts? : Kind → Option (String × String)
  | .int | .long => some ("integers", integerUsage)
  | .float | .double => some ("decimal numbers", decimalUsage)
  | .string => some ("strings", stringUsage)
  | .enum => some ("symbols", enumUsage)
  | _ => none

/-- The help for a field of a kind. -/
def usage? (kind : Kind) (name : String) : Option String :=
  (usageParts? kind).map fun (things, rest) =>
    s!"Enter a strategy to use when generating {things} for {kind.name} '{name}'.\n" ++ rest

end RecordForge.Command
