/-! # Calendar

Dates of the Gregorian calendar, carried on into all years, and the number of each day. Day zero is
the first of January 1970.
-/
namespace ObjectStorage.Calendar

structure Date where
  year : Int
  month : Nat
  day : Nat
deriving DecidableEq, Repr

def isLeapYear (year : Int) : Bool := year % 4 = 0 && (year % 100 ≠ 0 || year % 400 = 0)

def daysInMonth (year : Int) (month : Nat) : Nat :=
  if month = 2 then (if isLeapYear year then 29 else 28)
  else if month = 4 || month = 6 || month = 9 || month = 11 then 30
  else 31

def Date.isValid (d : Date) : Bool :=
  1 ≤ d.month && d.month ≤ 12 && 1 ≤ d.day && d.day ≤ daysInMonth d.year d.month

/-- The number of days before a year that starts in March, counted from the year zero. -/
def daysBeforeYear (year : Int) : Int := 365 * year + year / 4 - year / 100 + year / 400

/-- The number of days from the first of March to the first of a month, March being month zero. -/
def daysBeforeMonth (month : Nat) : Nat := (153 * month + 2) / 5

/-- The day that 1970 starts with, counted from the first of March of the year zero. -/
def epoch : Int := 719468

def Date.number (d : Date) : Int :=
  let year := if d.month ≤ 2 then d.year - 1 else d.year
  let month := (d.month + 9) % 12
  daysBeforeYear year + daysBeforeMonth month + (d.day - 1) - epoch

/-- The date of the day with a number. Four centuries have the same number of days always. -/
def dateOf (number : Int) : Date :=
  let n := number + epoch
  let era := n / 146097
  let dayOfEra := (n % 146097).toNat
  let yearOfEra := (dayOfEra - dayOfEra / 1460 + dayOfEra / 36524 - dayOfEra / 146096) / 365
  let dayOfYear := dayOfEra - (365 * yearOfEra + yearOfEra / 4 - yearOfEra / 100)
  let month := (5 * dayOfYear + 2) / 153
  let day := dayOfYear - daysBeforeMonth month + 1
  let year : Int := yearOfEra + era * 400
  ⟨if month < 10 then year else year + 1, (month + 2) % 12 + 1, day⟩

end ObjectStorage.Calendar
