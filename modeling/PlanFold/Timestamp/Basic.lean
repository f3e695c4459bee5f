/-!
# Timestamps

A timestamp is an instant together with the offset of the clock that shows it.
An instant is a count of seconds and a part of a second. The part may reach
two seconds: from one second on it lies in a leap second, which a clock shows
as the sixtieth. Shifting treats a leap second as inserted at the place where
the timestamp has it and nowhere else.

Dates are those of the Gregorian calendar carried on without end in both
directions; days are counted from the first of January of the year zero.
-/

set_option autoImplicit false

namespace PlanFold.Calendar

def isLeap (year : Int) : Bool := (year % 4 = 0 && year % 100 ≠ 0) || year % 400 = 0

def monthLengths (year : Int) : List Nat :=
  [31, if isLeap year then 29 else 28, 31, 30, 31, 30, 31, 31, 30, 31, 30, 31]

def yearStart (year : Int) : Int :=
  365 * year + (year + 3) / 4 - (year + 99) / 100 + (year + 399) / 400

def daysIn : Nat → List Nat → Nat
  | more + 1, length :: rest => length + daysIn more rest
  | _, _ => 0

structure Date where
  year : Int
  month : Nat
  day : Nat
deriving DecidableEq

namespace Date

def isValid (date : Date) : Bool :=
  1 ≤ date.month && 1 ≤ date.day &&
    match (monthLengths date.year)[date.month - 1]? with
    | some length => date.day ≤ length
    | none => false

def dayNumber (date : Date) : Int :=
  yearStart date.year + daysIn (date.month - 1) (monthLengths date.year) + date.day - 1

end Date

/-- The year that the day of a number lies in. The mean year has 146097 / 400 days
and settles the year up to one. -/
def yearOf (day : Int) : Int :=
  let guess := 400 * day / 146097
  if day < yearStart guess then guess - 1
  else if yearStart (guess + 1) ≤ day then guess + 1
  else guess

def passMonths : List Nat → Nat → Nat × Nat
  | [], days => (0, days)
  | length :: rest, days =>
    if days < length then (0, days)
    else ((passMonths rest (days - length)).1 + 1, (passMonths rest (days - length)).2)

def Date.ofDayNumber (day : Int) : Date :=
  let year := yearOf day
  let passed := passMonths (monthLengths year) (day - yearStart year).toNat
  ⟨year, passed.1 + 1, passed.2 + 1⟩

end PlanFold.Calendar

namespace PlanFold

def nanosInSecond : Int := 1000000000

/-- `second` counts from the start of the year zero at offset zero; `nano` is the
part of the second; `offset` is in minutes, positive to the east. -/
structure Timestamp where
  second : Int
  nano : Int
  offset : Int
deriving DecidableEq

namespace Timestamp

def secondsInDay : Int := 86400

def firstYear : Int := -262143
def lastYear : Int := 262142

def inYears (second : Int) : Bool :=
  Calendar.yearStart firstYear * secondsInDay ≤ second &&
    second < Calendar.yearStart (lastYear + 1) * secondsInDay

def inRange (t : Timestamp) : Bool := inYears t.second

def shownSecond (t : Timestamp) : Int := t.second + t.offset * 60

def isShown (t : Timestamp) : Bool := inYears t.shownSecond

def isAfter (a b : Timestamp) : Bool :=
  b.second < a.second || (a.second = b.second && b.nano < a.nano)

def carried (t : Timestamp) (second nano : Int) : Timestamp :=
  ⟨second + nano / nanosInSecond, nano % nanosInSecond, t.offset⟩

/-- The timestamp so many milliseconds later. Within its leap second it stays
there or falls to the second before; leaving it counts the leap second. -/
def later (t : Timestamp) (milliseconds : Int) : Timestamp :=
  let seconds := milliseconds.tdiv 1000
  let nanos := milliseconds.tmod 1000 * 1000000
  if t.nano < nanosInSecond then carried t (t.second + seconds) (t.nano + nanos)
  else if 0 < seconds ∨ (0 < nanos ∧ 2 * nanosInSecond ≤ t.nano + nanos) then
    carried t (t.second + seconds) (t.nano - nanosInSecond + nanos)
  else if seconds < 0 then
    carried t (t.second + 1 + seconds) (t.nano - nanosInSecond + nanos)
  else ⟨t.second, t.nano + nanos, t.offset⟩

def earlier? (t : Timestamp) (milliseconds : Int) : Option Timestamp :=
  let shifted := t.later (-milliseconds)
  if shifted.inRange then some shifted else none

end Timestamp

end PlanFold
