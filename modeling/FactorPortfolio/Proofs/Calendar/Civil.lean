import FactorPortfolio.Calendar.Civil
import Mathlib.Tactic.Common
import Mathlib.Tactic.IntervalCases

/-!
# The civil form of a date

`Civil.ofDayNumber` and `Civil.dayNumber` are inverse to each other on the dates of the calendar.
A day number splits into cycles of four hundred years, centuries, spans of four years and years;
`Split` names the pieces with the bounds between them, and both directions are read off it.

* `dayNumber_ofDayNumber`: the civil form of a day has that day's number.
* `isValid_ofDayNumber`: it is a form that the calendar has.
* `date?_civil`: so reading it back gives the date.
-/

namespace FactorPortfolio

namespace Civil

/-- The pieces of a day number: cycles of four hundred years, centuries, spans of four years,
years and days, each as many as the next larger piece leaves room for. -/
structure Split (n cycle century span spanYear inYear : Int) : Prop where
  total : n = 146097 * cycle + 36524 * century + 1461 * span + 365 * spanYear + inYear
  century_mem : 0 ≤ century ∧ century ≤ 3
  span_mem : 0 ≤ span ∧ span ≤ 24
  spanYear_mem : 0 ≤ spanYear ∧ spanYear ≤ 3
  inYear_mem : 0 ≤ inYear ∧ inYear ≤ 365
  /-- Only the last year of a span has a leap day, and that of a century only in a full cycle. -/
  leap : inYear = 365 → spanYear = 3 ∧ (span = 24 → century = 3)

section

variable {n cycle century span spanYear inYear : Int}

def splitYear (cycle century span spanYear : Int) : Int :=
  400 * cycle + 100 * century + 4 * span + spanYear

theorem yearStart_splitYear (h : Split n cycle century span spanYear inYear) :
    yearStart (splitYear cycle century span spanYear) = n - inYear := by
  obtain ⟨htotal, ⟨hc0, hc3⟩, ⟨hs0, hs24⟩, ⟨hy0, hy3⟩, _, _⟩ := h
  have h4 : splitYear cycle century span spanYear / 4 = 100 * cycle + 25 * century + span := by
    rw [splitYear]; omega
  have h100 : splitYear cycle century span spanYear / 100 = 4 * cycle + century := by
    rw [splitYear]; omega
  have h400 : splitYear cycle century span spanYear / 400 = cycle := by
    rw [splitYear]; omega
  rw [yearStart, h4, h100, h400, splitYear]
  omega

theorem isLeapYear_splitYear (h : Split n cycle century span spanYear 365) :
    isLeapYear (splitYear cycle century span spanYear + 1) = true := by
  obtain ⟨_, ⟨hc0, hc3⟩, ⟨hs0, hs24⟩, _, _, hleap⟩ := h
  obtain ⟨rfl, hfull⟩ := hleap rfl
  have h4 : (splitYear cycle century span 3 + 1) % 4 = 0 := by
    rw [splitYear]; omega
  have h100 : (splitYear cycle century span 3 + 1) % 100 ≠ 0 ∨
      (splitYear cycle century span 3 + 1) % 400 = 0 := by
    rw [splitYear]
    by_cases hs : span = 24
    · right; have := hfull hs; omega
    · left; omega
  simp only [isLeapYear, Bool.and_eq_true, Bool.or_eq_true, beq_iff_eq, bne_iff_ne]
  exact ⟨h4, h100⟩

end

/-- Every day number has such pieces, those that `ofDayNumber` computes. -/
theorem split_ofDayNumber (n : Int) :
    Split n (n / 146097) (min (n % 146097 / 36524) 3)
      ((n % 146097 - 36524 * min (n % 146097 / 36524) 3) / 1461)
      (min ((n % 146097 - 36524 * min (n % 146097 / 36524) 3) % 1461 / 365) 3)
      ((n % 146097 - 36524 * min (n % 146097 / 36524) 3) % 1461 -
        365 * min ((n % 146097 - 36524 * min (n % 146097 / 36524) 3) % 1461 / 365) 3) := by
  generalize hcycle : n / 146097 = cycle
  generalize hinCycle : n % 146097 = inCycle
  have h₁ : 0 ≤ inCycle ∧ inCycle < 146097 ∧ n = 146097 * cycle + inCycle := by omega
  generalize hcentury : min (inCycle / 36524) 3 = century
  generalize hinCentury : inCycle - 36524 * century = inCentury
  have h₂ : 0 ≤ century ∧ century ≤ 3 ∧ 0 ≤ inCentury ∧ inCentury ≤ 36524 ∧
      (inCentury = 36524 → century = 3) := by omega
  generalize hspan : inCentury / 1461 = span
  generalize hinSpan : inCentury % 1461 = inSpan
  have h₃ : 0 ≤ span ∧ span ≤ 24 ∧ 0 ≤ inSpan ∧ inSpan < 1461 ∧
      inCentury = 1461 * span + inSpan := by omega
  generalize hspanYear : min (inSpan / 365) 3 = spanYear
  generalize hinYear : inSpan - 365 * spanYear = inYear
  have h₄ : 0 ≤ spanYear ∧ spanYear ≤ 3 ∧ 0 ≤ inYear ∧ inYear ≤ 365 ∧
      (inYear = 365 → spanYear = 3) := by omega
  refine ⟨by omega, by omega, by omega, by omega, by omega, fun hlast => ⟨by omega, ?_⟩⟩
  -- the leap day of a century's last span is its day 36524
  intro hs
  omega

/-! ### The months of a year from March -/

/-- The month that a day of the year falls in, counted from March as 0. -/
def monthOf (inYear : Int) : Int := (5 * inYear + 2) / 153

theorem monthOf_mem {inYear : Int} (h : 0 ≤ inYear ∧ inYear ≤ 365) :
    0 ≤ monthOf inYear ∧ monthOf inYear ≤ 11 := by
  rw [monthOf]; omega

theorem monthStart_monthOf (inYear : Int) :
    monthStart (monthOf inYear) ≤ inYear ∧ inYear < monthStart (monthOf inYear + 1) := by
  rw [monthStart, monthStart, monthOf]; omega

def ofYear (year inYear : Int) : Civil :=
  let m := monthOf inYear
  let day := inYear - monthStart m + 1
  if m < 10 then ⟨year, (m + 3).toNat, day.toNat⟩ else ⟨year + 1, (m - 9).toNat, day.toNat⟩

theorem ofDayNumber_eq (n : Int) : ∃ cycle century span spanYear inYear,
    Split n cycle century span spanYear inYear ∧
      ofDayNumber n = ofYear (splitYear cycle century span spanYear) inYear :=
  ⟨_, _, _, _, _, split_ofDayNumber n, rfl⟩

theorem dayNumber_ofYear (year : Int) {inYear : Int} (h : 0 ≤ inYear ∧ inYear ≤ 365) :
    (ofYear year inYear).dayNumber = yearStart year + inYear := by
  have hm := monthOf_mem h
  have hstart := monthStart_monthOf inYear
  rw [ofYear]
  generalize monthOf inYear = m at hm hstart ⊢
  by_cases h10 : m < 10
  · simp only [if_pos h10, dayNumber]
    rw [if_neg (by omega)]
    have : ((m + 3).toNat : Int) - 3 = m := by omega
    rw [this]
    omega
  · simp only [if_neg h10, dayNumber]
    rw [if_pos (by omega)]
    have : ((m - 9).toNat : Int) + 9 = m := by omega
    rw [this, show year + 1 - 1 = year by omega]
    omega

/-- **The civil form of a day has that day's number.** -/
theorem dayNumber_ofDayNumber (n : Int) : (ofDayNumber n).dayNumber = n := by
  obtain ⟨cycle, century, span, spanYear, inYear, hsplit, heq⟩ := ofDayNumber_eq n
  rw [heq, dayNumber_ofYear _ hsplit.inYear_mem, yearStart_splitYear hsplit]
  omega

theorem isValid_ofYear (year : Int) {inYear : Int} (h : 0 ≤ inYear ∧ inYear ≤ 365)
    (hleap : inYear = 365 → isLeapYear (year + 1) = true) :
    (ofYear year inYear).isValid = true := by
  have hm := monthOf_mem h
  have hstart := monthStart_monthOf inYear
  have hlast : monthOf inYear = 11 → inYear - monthStart 11 + 1 ≤ 28 ∨
      inYear - monthStart 11 + 1 = 29 ∧ inYear = 365 := by
    intro he
    simp only [monthStart]
    omega
  rw [ofYear]
  generalize monthOf inYear = m at hm hstart hlast ⊢
  obtain ⟨hm0, hm11⟩ := hm
  interval_cases m
  all_goals simp [isValid, daysInMonth, monthStart] at hstart hlast ⊢
  all_goals grind

theorem isValid_ofDayNumber (n : Int) : (ofDayNumber n).isValid = true := by
  obtain ⟨cycle, century, span, spanYear, inYear, hsplit, heq⟩ := ofDayNumber_eq n
  rw [heq]
  refine isValid_ofYear _ hsplit.inYear_mem ?_
  rintro rfl
  exact isLeapYear_splitYear hsplit

theorem month_le_of_isValid {c : Civil} (h : c.isValid = true) : 1 ≤ c.month ∧ c.month ≤ 12 := by
  simp [isValid] at h
  omega

theorem daysInMonth_le (year : Int) (month : Nat) : daysInMonth year month ≤ 31 := by
  unfold daysInMonth
  split
  · split <;> omega
  all_goals omega

theorem day_le_of_isValid {c : Civil} (h : c.isValid = true) : 1 ≤ c.day ∧ c.day ≤ 31 := by
  have := daysInMonth_le c.year c.month
  simp [isValid] at h
  omega

end Civil

theorem Date.dayNumber_civil (d : Date) : d.civil.dayNumber = d.day :=
  Civil.dayNumber_ofDayNumber d.day

theorem Date.isValid_civil (d : Date) : d.civil.isValid = true := Civil.isValid_ofDayNumber d.day

/-- **Reading the civil form of a date back gives the date.** -/
theorem Date.date?_civil (d : Date) : d.civil.date? = some d := by
  rw [Civil.date?, if_pos d.isValid_civil, d.dayNumber_civil, Date.ofDay?, dif_pos d.inRange]

theorem Date.ofCivil?_civil (d : Date) :
    Date.ofCivil? d.civil.year d.civil.month d.civil.day = some d := d.date?_civil

end FactorPortfolio
