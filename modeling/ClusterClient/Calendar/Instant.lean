/-!
# Dates and instants

Dates of the proleptic Gregorian calendar and their count of days from 1970-01-01. Years are
taken to begin in March, so that the leap day is the last day of its year; 400 years have
146097 days, and within them centuries, groups of four years and years are counted off in turn.

An instant is a moment of universal time to the nanosecond. The sixty-first second of a minute is
kept as the second before it with a thousand million nanoseconds more.

* `Date.dayNumber`: the day count of a date;
* `Date.ofDayNumber`: the date of a day count;
* `Instant.date`, `Instant.secondOfDay`: what calendar and clock show at an instant.
-/

namespace ClusterClient

/-- A date as it is written. -/
structure Date where
  year : Int
  month : Nat
  day : Nat
  deriving DecidableEq, Repr

namespace Date

def isLeapYear (year : Int) : Bool :=
  year % 4 = 0 ∧ (year % 100 ≠ 0 ∨ year % 400 = 0)

def monthLength (year : Int) (month : Nat) : Nat :=
  if month = 2 then (if isLeapYear year then 29 else 28)
  else if month = 4 ∨ month = 6 ∨ month = 9 ∨ month = 11 then 30
  else 31

/-- Whether the calendar has this date. -/
def isValid (d : Date) : Bool :=
  1 ≤ d.month ∧ d.month ≤ 12 ∧ 1 ≤ d.day ∧ d.day ≤ monthLength d.year d.month

/-- Days from the first of March to the first of the month that is `months` later. -/
def daysBeforeMonth (months : Nat) : Nat :=
  (153 * months + 2) / 5

/-- Days from 1970-01-01. -/
def dayNumber (d : Date) : Int :=
  let year := if d.month ≤ 2 then d.year - 1 else d.year
  let months := (d.month + 9) % 12
  let yearOfCycle := year % 400
  year / 400 * 146097 + yearOfCycle * 365 + yearOfCycle / 4 - yearOfCycle / 100 +
    daysBeforeMonth months + d.day - 1 - 719468

/-- The date that lies a number of days after 1970-01-01. The last day of a century cycle and of
a group of four years is a leap day, which the two minima leave in the year that it ends. -/
def ofDayNumber (n : Int) : Date :=
  let shifted := n + 719468
  let day := (shifted % 146097).toNat
  let century := min (day / 36524) 3
  let day := day - century * 36524
  let group := day / 1461
  let day := day - group * 1461
  let yearOfGroup := min (day / 365) 3
  let day := day - yearOfGroup * 365
  let months := (5 * day + 2) / 153
  let month := if months < 10 then months + 3 else months - 9
  let year := shifted / 146097 * 400 + century * 100 + group * 4 + yearOfGroup
  ⟨if month ≤ 2 then year + 1 else year, month, day - daysBeforeMonth months + 1⟩

end Date

/-! ## Instants -/

/-- Seconds from 1970-01-01T00:00:00Z, and the nanoseconds after them. -/
structure Instant where
  seconds : Int
  /-- Below 2 000 000 000; from 1 000 000 000 on the instant lies in a leap second. -/
  nanos : Nat
  deriving DecidableEq, Repr

namespace Instant

/-- The years whose dates an instant can name. -/
def firstYear : Int := -262143

/-- The last of these years. -/
def lastYear : Int := 262142

def date (t : Instant) : Date :=
  .ofDayNumber (t.seconds / 86400)

/-- Seconds since midnight. -/
def secondOfDay (t : Instant) : Nat :=
  (t.seconds % 86400).toNat

end Instant

end ClusterClient
