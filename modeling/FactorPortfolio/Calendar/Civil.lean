import FactorPortfolio.Calendar.Date

/-! # Year, month and day

The civil form of a date and its two conversions. Years are counted from March, so that the leap
day is the last day of a year: `monthStart m` days lie before the `m`-th month from March.
`Civil.date?` accepts what the calendar has; `Date.civil` takes whole cycles of four hundred
years, then centuries, then spans of four years, then years off the day number.
-/

namespace FactorPortfolio

/-- A year, a month from 1 to 12 and a day of that month from 1. -/
structure Civil where
  year : Int
  month : Nat
  day : Nat
  deriving DecidableEq

/-- Every fourth year, but of the full centuries only every fourth. -/
def isLeapYear (year : Int) : Bool := year % 4 == 0 && (year % 100 != 0 || year % 400 == 0)

def daysInMonth (year : Int) (month : Nat) : Nat :=
  match month with
  | 2 => if isLeapYear year then 29 else 28
  | 4 => 30
  | 6 => 30
  | 9 => 30
  | 11 => 30
  | _ => 31

/-- Days before the year that starts in March of `year`. -/
def yearStart (year : Int) : Int := 365 * year + year / 4 - year / 100 + year / 400

/-- Days of a year from March that lie before its `m`-th month, counted from 0. -/
def monthStart (m : Int) : Int := (153 * m + 2) / 5

namespace Civil

def dayNumber (c : Civil) : Int :=
  if c.month < 3 then yearStart (c.year - 1) + monthStart (c.month + 9) + c.day - 1
  else yearStart c.year + monthStart (c.month - 3) + c.day - 1

def isValid (c : Civil) : Bool :=
  1 ≤ c.month && c.month ≤ 12 && 1 ≤ c.day && c.day ≤ daysInMonth c.year c.month

def date? (c : Civil) : Option Date := if c.isValid then Date.ofDay? c.dayNumber else none

/-- The civil date of a day number. Only the last century of a cycle and the last year of a
four-year span can be a day longer, which the two minima leave to it. -/
def ofDayNumber (n : Int) : Civil :=
  let cycle := n / 146097
  let inCycle := n % 146097
  let century := min (inCycle / 36524) 3
  let inCentury := inCycle - 36524 * century
  let span := inCentury / 1461
  let inSpan := inCentury % 1461
  let spanYear := min (inSpan / 365) 3
  let inYear := inSpan - 365 * spanYear
  let year := 400 * cycle + 100 * century + 4 * span + spanYear
  let m := (5 * inYear + 2) / 153
  let day := inYear - monthStart m + 1
  if m < 10 then ⟨year, (m + 3).toNat, day.toNat⟩ else ⟨year + 1, (m - 9).toNat, day.toNat⟩

end Civil

def Date.civil (d : Date) : Civil := Civil.ofDayNumber d.day

def Date.ofCivil? (year : Int) (month day : Nat) : Option Date := Civil.date? ⟨year, month, day⟩

end FactorPortfolio
