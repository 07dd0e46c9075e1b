/-!
# Moments

A second of the Gregorian calendar in universal time, from 1970 on. Moments are ordered as the
seconds that have passed since the calendar's first one here.
-/
namespace Reckoner.Calendar

structure Moment where
  year : Nat
  /-- from one to twelve -/
  month : Nat
  day : Nat
  hour : Nat
  minute : Nat
  second : Nat
  deriving Repr, DecidableEq

def isLeapYear (year : Nat) : Bool :=
  year % 4 = 0 && (year % 100 ≠ 0 || year % 400 = 0)

def daysOfMonth (year month : Nat) : Nat :=
  if month = 2 then (if isLeapYear year then 29 else 28)
  else if month = 4 ∨ month = 6 ∨ month = 9 ∨ month = 11 then 30
  else 31

def firstYear : Nat := 1970

/-- The leap years up to a year, counted from the calendar's beginning. -/
def leapYearsUpTo (year : Nat) : Nat := year / 4 - year / 100 + year / 400

/-- The days before a month in its year. -/
def daysBeforeMonth (year month : Nat) : Nat :=
  (List.range (month - 1)).foldl (fun days n => days + daysOfMonth year (n + 1)) 0

namespace Moment

/-- Whether there is such a moment, from the first year on. -/
def isReal (m : Moment) : Bool :=
  firstYear ≤ m.year && 1 ≤ m.month && m.month ≤ 12 &&
    1 ≤ m.day && m.day ≤ daysOfMonth m.year m.month &&
    m.hour < 24 && m.minute < 60 && m.second < 60

/-- The days since the first day of the first year. -/
def dayNumber (m : Moment) : Nat :=
  365 * (m.year - firstYear) + (leapYearsUpTo (m.year - 1) - leapYearsUpTo (firstYear - 1)) +
    daysBeforeMonth m.year m.month + (m.day - 1)

/-- The day of the week, from zero for Monday; the first day of all was a Thursday. -/
def weekday (m : Moment) : Nat := (m.dayNumber + 3) % 7

/-- The seconds since the first one. -/
def seconds (m : Moment) : Nat :=
  ((m.dayNumber * 24 + m.hour) * 60 + m.minute) * 60 + m.second

end Moment
end Reckoner.Calendar
