/-!
# Calendar days

Days of the Gregorian calendar from year 1 to year 9999, their day numbers, and integers that are
written `YYYYMMDD`.

* `Date`: a day of the calendar; that it exists is part of the type.
* `Date.number`, `Date.ofNumber?`: the count of days from the first day of year 1, and back.
* `Date.toStamp`, `readStamp`: the integer `YYYYMMDD` of a day, and back.
-/

namespace RecordForge.Calendar

/-- Whether a year of the Gregorian calendar has a 29 February. -/
def isLeap (year : Nat) : Bool := year % 4 == 0 && (year % 100 != 0 || year % 400 == 0)

/-- The number of days of a month. -/
def monthLength (year month : Nat) : Nat :=
  if month = 2 then (if isLeap year then 29 else 28)
  else if month = 4 ∨ month = 6 ∨ month = 9 ∨ month = 11 then 30
  else 31

/-- Whether a year, a month and a day name a day of the calendar. -/
def IsDay (year month day : Nat) : Prop :=
  1 ≤ year ∧ year ≤ 9999 ∧ 1 ≤ month ∧ month ≤ 12 ∧ 1 ≤ day ∧ day ≤ monthLength year month

instance (y m d : Nat) : Decidable (IsDay y m d) :=
  inferInstanceAs (Decidable (_ ∧ _ ∧ _ ∧ _ ∧ _ ∧ _))

/-- A day of the calendar. -/
structure Date where
  year : Nat
  month : Nat
  day : Nat
  isDay : IsDay year month day
  deriving DecidableEq

/-- The day with the given year, month and day of the month, if there is one. -/
def Date.of? (year month day : Nat) : Option Date :=
  if h : IsDay year month day then some ⟨year, month, day, h⟩ else none

/-! ## Day numbers -/

/-- The number of days of the years before a year. -/
def daysBeforeYear (year : Nat) : Nat :=
  let y := year - 1
  365 * y + y / 4 - y / 100 + y / 400

/-- The number of days of a year before a month. -/
def daysBeforeMonth (year : Nat) : (month : Nat) → Nat
  | 0 => 0
  | 1 => 0
  | m + 2 => daysBeforeMonth year (m + 1) + monthLength year (m + 1)

/-- The number of a day, counted from 1 for the first day of year 1. -/
def Date.number (d : Date) : Nat := daysBeforeYear d.year + daysBeforeMonth d.year d.month + d.day

/-- The number of the last day of year 9999. -/
def lastNumber : Nat := 3652059

/-- The year that a day number falls in. Four centuries have 146097 days, and the guess from their
mean length is at most one year off. -/
def yearOf (n : Nat) : Nat :=
  let guess := (n - 1) * 400 / 146097 + 1
  if n ≤ daysBeforeYear guess then guess - 1
  else if daysBeforeYear (guess + 1) < n then guess + 1
  else guess

/-- The month and the day of the month of the `n`-th day of a year, searched from a month on. -/
def monthDay (year : Nat) : (months : Nat) → (n : Nat) → Nat × Nat
  | 0, n => (12, n)
  | k + 1, n =>
    let month := 12 - k
    if n ≤ monthLength year month then (month, n) else monthDay year k (n - monthLength year month)

/-- The day with a number, if the calendar reaches it. -/
def Date.ofNumber? (n : Int) : Option Date :=
  if 1 ≤ n ∧ n ≤ lastNumber then
    let year := yearOf n.toNat
    let (month, day) := monthDay year 12 (n.toNat - daysBeforeYear year)
    Date.of? year month day
  else none

/-- The day a number of days later, if the calendar reaches it. -/
def Date.plus? (d : Date) (days : Int) : Option Date := Date.ofNumber? (d.number + days)

/-- The number of days from one day to another. -/
def Date.daysTo (a b : Date) : Int := (b.number : Int) - a.number

/-! ## Stamps -/

/-- The integer `YYYYMMDD` of a day. -/
def Date.toStamp (d : Date) : Int := ((d.year * 100 + d.month) * 100 + d.day : Nat)

/-- The greatest year that a date can be asked for without being out of reach altogether. -/
def yearReach : Int := 0x7FFFFFFF

/-- What an integer stands for when it is read as `YYYYMMDD`. -/
inductive Stamp where
  /-- A day of the calendar. -/
  | day (d : Date)
  /-- No day of the calendar. -/
  | none
  /-- Its year is beyond `yearReach`. -/
  | outOfReach
  deriving DecidableEq

/-- Read an integer as `YYYYMMDD`, with at least four digits for the year. -/
def readStamp (n : Int) : Stamp :=
  if n < 10000000 then .none
  else if yearReach < n / 10000 then .outOfReach
  else match Date.of? (n / 10000).toNat (n / 100 % 100).toNat (n % 100).toNat with
    | some d => .day d
    | Option.none => .none

end RecordForge.Calendar
