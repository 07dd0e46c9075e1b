import Reckoner.Calendar.Moment
import Reckoner.Text.Blank
import Reckoner.Text.Reader

/-!
# Dates in headers

A header writes a moment in one of three notations: with a short weekday and the year in full, with
a long weekday and two digits of the year, or with the year at the end. All three name the weekday,
and a date whose weekday is wrong is none.
-/
namespace Reckoner.Web.DateText

open Calendar Text

/-- A moment with the weekday that is written beside it, from zero for Monday. -/
structure Dated where
  weekday : Nat
  moment : Moment

def shortWeekdays : List String := ["Mon", "Tue", "Wed", "Thu", "Fri", "Sat", "Sun"]

def longWeekdays : List String :=
  ["Monday", "Tuesday", "Wednesday", "Thursday", "Friday", "Saturday", "Sunday"]

def months : List String :=
  ["Jan", "Feb", "Mar", "Apr", "May", "Jun", "Jul", "Aug", "Sep", "Oct", "Nov", "Dec"]

def month? : Reader Nat := fun cs => (oneOf? months cs).map fun (place, rest) => (place + 1, rest)

/-- Hour, minute and second with colons between them. -/
def time? : Reader (Nat × Nat × Nat) := fun cs => do
  let (hour, cs) ← digits? 2 cs
  let (minute, cs) ← digits? 2 (← skip? ':' cs)
  let (second, cs) ← digits? 2 (← skip? ':' cs)
  return ((hour, minute, second), cs)

/-- The rest of a date that ends with its time and the zone. -/
def endsInZone (cs : List Char) : Bool := cs = " GMT".toList

/-- A date such as "Sun, 06 Nov 1994 08:49:37 GMT". -/
def full? (cs : List Char) : Option Dated := do
  let (weekday, cs) ← oneOf? shortWeekdays cs
  let (day, cs) ← digits? 2 (← skipAll? [',', ' '] cs)
  let (month, cs) ← month? (← skip? ' ' cs)
  let (year, cs) ← digits? 4 (← skip? ' ' cs)
  let ((hour, minute, second), cs) ← time? (← skip? ' ' cs)
  if endsInZone cs then some ⟨weekday, ⟨year, month, day, hour, minute, second⟩⟩ else none

/-- The year that two digits stand for. -/
def yearOfTwoDigits (n : Nat) : Nat := if n < 70 then 2000 + n else 1900 + n

/-- A date such as "Sunday, 06-Nov-94 08:49:37 GMT". Any one character may stand before its time. -/
def dashed? (cs : List Char) : Option Dated := do
  let (weekday, cs) ← oneOf? longWeekdays cs
  let (day, cs) ← digits? 2 (← skipAll? [',', ' '] cs)
  let (month, cs) ← month? (← skip? '-' cs)
  let (year, cs) ← digits? 2 (← skip? '-' cs)
  let ((hour, minute, second), cs) ← time? (← cs.tail?)
  if endsInZone cs then
    some ⟨weekday, ⟨yearOfTwoDigits year, month, day, hour, minute, second⟩⟩
  else none

/-- A day in two places, the first of them perhaps blank. -/
def day? : Reader Nat := fun cs =>
  match skip? ' ' cs with
  | some rest => digits? 1 rest
  | none => digits? 2 cs

/-- A date such as "Sun Nov  6 08:49:37 1994". -/
def plain? (cs : List Char) : Option Dated := do
  let (weekday, cs) ← oneOf? shortWeekdays cs
  let (month, cs) ← month? (← skip? ' ' cs)
  let (day, cs) ← day? (← skip? ' ' cs)
  let ((hour, minute, second), cs) ← time? (← skip? ' ' cs)
  let (year, cs) ← digits? 4 (← skip? ' ' cs)
  if cs = [] then some ⟨weekday, ⟨year, month, day, hour, minute, second⟩⟩ else none

/-- The moment that a header writes, in the first of the notations that fits. -/
def parse? (header : String) : Option Moment :=
  let cs := trim header.toList
  match (full? cs).or ((dashed? cs).or (plain? cs)) with
  | some dated =>
    if dated.moment.isReal && dated.moment.weekday = dated.weekday then some dated.moment else none
  | none => none

end Reckoner.Web.DateText
