/-!
The proleptic Gregorian calendar as a bijection between day numbers, counted from
1 January 1970, and dates. Years are taken to begin in March, so that the leap
day is the last day of its year and the lengths of the months follow one formula.
-/

namespace FieldPost.Calendar

structure Date where
  year : Int
  month : Int
  day : Int
deriving DecidableEq, Repr

/-- Days in the 400 years after which the calendar repeats. -/
def cycleDays : Int := 146097

/-- Days from 1 March of year 0 to 1 January 1970. -/
def epochShift : Int := 719468

/-- The year, counted from March, that day `day` of a cycle falls in. -/
def yearOfCycle (day : Int) : Int := (day - day / 1460 + day / 36524 - day / 146096) / 365

/-- The days of a cycle before its year `year` begins. -/
def daysBeforeYear (year : Int) : Int := 365 * year + year / 4 - year / 100

/-- The month, March being 0, that day `day` of a year falls in. -/
def monthOfYear (day : Int) : Int := (5 * day + 2) / 153

/-- The days of a year before its month `month` begins. -/
def daysBeforeMonth (month : Int) : Int := (153 * month + 2) / 5

def dateOfDays (days : Int) : Date :=
  let shifted := days + epochShift
  let ofCycle := shifted % cycleDays
  let year := yearOfCycle ofCycle
  let ofYear := ofCycle - daysBeforeYear year
  let month := monthOfYear ofYear
  let calendarMonth := if month < 10 then month + 3 else month - 9
  { year := year + shifted / cycleDays * 400 + (if calendarMonth ≤ 2 then 1 else 0)
    month := calendarMonth
    day := ofYear - daysBeforeMonth month + 1 }

def daysOfDate (date : Date) : Int :=
  let year := if date.month ≤ 2 then date.year - 1 else date.year
  let month := if date.month ≤ 2 then date.month + 9 else date.month - 3
  year / 400 * cycleDays + daysBeforeYear (year % 400) + daysBeforeMonth month + date.day - 1 -
    epochShift

def isLeapYear (year : Int) : Bool :=
  year % 4 == 0 && (year % 100 != 0 || year % 400 == 0)

def daysInMonth (year month : Int) : Int :=
  if month = 2 then (if isLeapYear year then 29 else 28)
  else if month = 4 ∨ month = 6 ∨ month = 9 ∨ month = 11 then 30
  else 31

def Date.exists (date : Date) : Bool :=
  1 ≤ date.month && date.month ≤ 12 && 1 ≤ date.day && date.day ≤ daysInMonth date.year date.month

end FieldPost.Calendar
