import RecordForge.Calendar.Date
import RecordForge.Number.Notation

/-!
# Moments

A moment is a time on a day, with how far its clock is ahead of universal time if that is known.

* `Moment`: a moment; that its clock shows it is part of the type.
* `Date.shown`, `Moment.shown`: days and moments as messages show them.
-/

namespace RecordForge.Calendar

/-- The number of seconds of a day. -/
def secondsOfDay : Nat := 86400

/-- Whether a clock shows a time, and is less than a day ahead of universal time or behind it. -/
def IsTime (hour minute second micro : Nat) (ahead : Option Int) : Prop :=
  hour < 24 ∧ minute < 60 ∧ second < 60 ∧ micro < 1000000 ∧ ∀ n ∈ ahead, n.natAbs < secondsOfDay

instance (h m s u : Nat) (a : Option Int) : Decidable (IsTime h m s u a) :=
  inferInstanceAs (Decidable (_ ∧ _ ∧ _ ∧ _ ∧ _))

/-- A time on a day. -/
structure Moment where
  date : Date
  hour : Nat
  minute : Nat
  second : Nat
  /-- Millionths of a second. -/
  micro : Nat
  /-- By how many seconds the clock is ahead of universal time. -/
  ahead : Option Int
  isTime : IsTime hour minute second micro ahead
  deriving DecidableEq

/-- The moment at a time on a day, if there is one. -/
def Moment.of? (date : Date) (hour minute second micro : Nat) (ahead : Option Int) : Option Moment :=
  if h : IsTime hour minute second micro ahead then some ⟨date, hour, minute, second, micro, ahead, h⟩
  else none

/-! ## As text -/

/-- The numbers of a day. -/
def Date.parts (d : Date) : List Nat := [d.year, d.month, d.day]

/-- Numbers as the arguments of a call. -/
def shownNumbers (ns : List Nat) : String := ", ".intercalate (ns.map fun (n : Nat) => Decimal.integer n)

/-- A day as messages show it. -/
def Date.shown (d : Date) : String := s!"datetime.date({shownNumbers d.parts})"

/-- The numbers of a moment; seconds and millionths are left out at the end if they are zero. -/
def Moment.parts (m : Moment) : List Nat :=
  let finest :=
    if m.micro ≠ 0 then [m.second, m.micro] else if m.second ≠ 0 then [m.second] else []
  m.date.parts ++ [m.hour, m.minute] ++ finest

/-- A clock as messages show it; one behind universal time is a day behind and some seconds ahead. -/
def shownClock (ahead : Int) : String :=
  if ahead = 0 then "datetime.timezone.utc"
  else
    let seconds := Decimal.integer (ahead % secondsOfDay)
    let days := if ahead < 0 then "days=-1, " else ""
    s!"datetime.timezone(datetime.timedelta({days}seconds={seconds}))"

/-- A moment as messages show it. -/
def Moment.shown (m : Moment) : String :=
  let clock := match m.ahead with
    | some n => s!", tzinfo={shownClock n}"
    | none => ""
  s!"datetime.datetime({shownNumbers m.parts}{clock})"

end RecordForge.Calendar
