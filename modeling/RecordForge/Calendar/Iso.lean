import RecordForge.Calendar.Date
import RecordForge.Text.Digit

/-!
# Days in ISO 8601

A day is written with its month, as `2020-01-31` or `20200131`, or with its week, as `2020-W05-5` or
`2020W055`. A week alone stands for its Monday.

* `firstMonday`: the day that the weeks of a year start with.
* `Date.ofWeek?`: a day of a week.
* `Date.ofIso?`: reading a day.
-/

namespace RecordForge.Calendar

/-! ## Weeks -/

/-- The day of the week of a day number, 0 for a Monday. -/
def weekday (number : Nat) : Nat := (number + 6) % 7

/-- The number of the Monday that the weeks of a year start with: the first week is the one with the
first Thursday. -/
def firstMonday (year : Nat) : Nat :=
  let newYear := daysBeforeYear year + 1
  let past := weekday newYear
  if 3 < past then newYear + 7 - past else newYear - past

/-- The number of the weeks of a year: there is one more if the year has one Thursday more. -/
def weekCount (year : Nat) : Nat :=
  let first := weekday (daysBeforeYear year + 1)
  if first = 3 ∨ first = 2 ∧ isLeap year then 53 else 52

/-- The day with a place in a week of a year, 1 for the Monday. -/
def Date.ofWeek? (year week day : Nat) : Option Date :=
  if 1 ≤ year ∧ 1 ≤ week ∧ week ≤ weekCount year ∧ 1 ≤ day ∧ day ≤ 7 then
    Date.ofNumber? (firstMonday year + 7 * (week - 1) + (day - 1))
  else none

/-! ## Reading -/

/-- A number of so many ASCII digits that a text starts with, and what follows it. -/
def leadingNumber? (count : Nat) (s : List Char) : Option (Nat × List Char) :=
  let ds := s.take count
  if ds.length = count ∧ ds.all Char.isDigit then some (Text.numberOf ds, s.drop count) else none

/-- What follows a hyphen, which a text without hyphens does not have. -/
def afterHyphen? (isHyphened : Bool) : List Char → Option (List Char)
  | '-' :: s => if isHyphened then some s else none
  | s => if isHyphened then none else some s

/-- The lengths in bytes that a day may have. -/
def isoLengths : List Nat := [7, 8, 10]

/-- The day that a text names. What stands after a day that is complete counts for nothing but the
length. -/
def Date.ofIso? (text : String) : Option Date := do
  if !isoLengths.contains text.utf8ByteSize then none
  let (year, s) ← leadingNumber? 4 text.toList
  let isHyphened := s.head? == some '-'
  match ← afterHyphen? isHyphened s with
  | 'W' :: s =>
    let (week, s) ← leadingNumber? 2 s
    if s.isEmpty then Date.ofWeek? year week 1 else
    let (day, _) ← leadingNumber? 1 (← afterHyphen? isHyphened s)
    Date.ofWeek? year week day
  | s =>
    let (month, s) ← leadingNumber? 2 s
    let (day, _) ← leadingNumber? 2 (← afterHyphen? isHyphened s)
    Date.of? year month day

end RecordForge.Calendar
