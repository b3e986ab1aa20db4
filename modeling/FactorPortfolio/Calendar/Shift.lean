import FactorPortfolio.Calendar.Civil

/-! # Moving a date by years, months and days

Years and months move first, with the day cut to the length of the month that is reached; days
move afterwards. A move fails when the count of months leaves 64 bits or when a date that it
passes is not in the calendar.
-/

namespace FactorPortfolio

def isInt64 (n : Int) : Bool := -9223372036854775808 ≤ n && n ≤ 9223372036854775807

def clampInt64 (n : Int) : Int := max (-9223372036854775808) (min n 9223372036854775807)

namespace Date

/-- The date `n` months later, its day cut to the length of the month reached. -/
def addMonths? (d : Date) (n : Int) : Option Date :=
  let c := d.civil
  let total := 12 * c.year + (c.month : Int) - 1 + n
  let year := total / 12
  let month := (total % 12).toNat + 1
  ofCivil? year month (Nat.min c.day (daysInMonth year month))

/-- Moves a date by years, months and days, in this order. -/
def shift? (d : Date) (years months days : Int) : Option Date :=
  if isInt64 (years * 12) && isInt64 (years * 12 + months) then
    (d.addMonths? (years * 12 + months)).bind (·.addDays? days)
  else none

end Date

end FactorPortfolio
