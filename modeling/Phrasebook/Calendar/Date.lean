-- SUMMARY: Days of the Gregorian calendar, counted from 1970-01-01 in both directions.

/-!
# Calendar dates

Dates of the proleptic Gregorian calendar, year 0 and negative years included, and their day
numbers, where day 0 is 1970-01-01.

The arithmetic counts years from the first of March, so that the leap day comes last in its year.
A period of 400 years has 146097 days, and the months from March to January begin at the days
`(153 * month + 2) / 5`.
-/
namespace Phrasebook

structure Date where
  year  : Int
  month : Nat
  day   : Nat
deriving DecidableEq, Repr

namespace Date

def isLeapYear (year : Int) : Bool := year % 4 == 0 && (year % 100 != 0 || year % 400 == 0)

/-- The number of days of a month from 1 to 12. -/
def daysInMonth (year : Int) (month : Nat) : Nat :=
  match month with
  | 2 => if isLeapYear year then 29 else 28
  | 4 | 6 | 9 | 11 => 30
  | _ => 31

/-- The month and the day exist. -/
def isValid (date : Date) : Bool :=
  1 ≤ date.month && date.month ≤ 12 && 1 ≤ date.day &&
    date.day ≤ daysInMonth date.year date.month

/-- The last day of its month. -/
def isMonthEnd (date : Date) : Bool := date.day == daysInMonth date.year date.month

/-- The number of days from 0000-03-01 to 1970-01-01. -/
def epochShift : Int := 719468

/-- The number of days in 400 years. -/
def periodDays : Int := 146097

/-- The day number of a date. -/
def toDays (date : Date) : Int :=
  let year := if date.month ≤ 2 then date.year - 1 else date.year
  let month : Int := if date.month ≤ 2 then date.month + 9 else date.month - 3
  let period := year / 400
  let yearOfPeriod := year % 400
  let dayOfYear := (153 * month + 2) / 5 + date.day - 1
  let dayOfPeriod := yearOfPeriod * 365 + yearOfPeriod / 4 - yearOfPeriod / 100 + dayOfYear
  period * periodDays + dayOfPeriod - epochShift

/-- The date of a day number. -/
def ofDays (days : Int) : Date :=
  let shifted := days + epochShift
  let period := shifted / periodDays
  let dayOfPeriod := shifted % periodDays
  let yearOfPeriod :=
    (dayOfPeriod - dayOfPeriod / 1460 + dayOfPeriod / 36524 - dayOfPeriod / 146096) / 365
  let dayOfYear := dayOfPeriod - (365 * yearOfPeriod + yearOfPeriod / 4 - yearOfPeriod / 100)
  let month := (5 * dayOfYear + 2) / 153
  let day := dayOfYear - (153 * month + 2) / 5 + 1
  let year := yearOfPeriod + period * 400
  if month < 10 then { year, month := (month + 3).toNat, day := day.toNat }
  else { year := year + 1, month := (month - 9).toNat, day := day.toNat }

example : toDays ⟨1970, 1, 1⟩ = 0 := by decide
example : ofDays 0 = ⟨1970, 1, 1⟩ := by decide
example : ofDays 11016 = ⟨2000, 2, 29⟩ := by decide
example : ofDays (-719529) = ⟨-1, 12, 31⟩ := by decide

end Date

end Phrasebook
