import FactorPortfolio.Calendar.Shift
import FactorPortfolio.Proofs.Calendar.Civil
import FactorPortfolio.Proofs.Calendar.Order
import Mathlib.Tactic.Common

/-!
# Moving by months and days

Months are numbered through: `monthIndex` counts them over all years, and `monthDay i` is the day
number of the first day of the `i`-th one.

* `monthDay_succ`: the months lie side by side, each as long as `daysInMonth` says.
* `dayNumber_lt_iff`: so civil dates are in the order of years, months and days.
* `addMonths?_eq_some_iff`: a date some months later is the one in the month so many months on, its
  day cut to the length of that month (`MonthsAfter`).
* `shift?_mono`: moves by more years, months and days lead no less far, although days are cut;
  `le_of_shift?` is the case of a move back.
-/

namespace FactorPortfolio

namespace Civil

/-- The months before a month, over all years. -/
def monthIndex (c : Civil) : Int := 12 * c.year + (c.month : Int) - 1

def monthDay (i : Int) : Int := dayNumber ⟨i / 12, (i % 12).toNat + 1, 1⟩

theorem yearStart_sub (year : Int) :
    yearStart year - yearStart (year - 1) = if isLeapYear year then 366 else 365 := by
  by_cases h : isLeapYear year = true
  · rw [if_pos h]
    simp only [isLeapYear, Bool.and_eq_true, Bool.or_eq_true, beq_iff_eq, bne_iff_ne] at h
    rw [yearStart, yearStart]
    omega
  · rw [if_neg h]
    simp only [isLeapYear, Bool.and_eq_true, Bool.or_eq_true, beq_iff_eq, bne_iff_ne] at h
    rw [yearStart, yearStart]
    omega

theorem monthDay_eq (year : Int) (month : Nat) (h : 1 ≤ month ∧ month ≤ 12) :
    monthDay (12 * year + month - 1) = dayNumber ⟨year, month, 1⟩ := by
  have hyear : (12 * year + (month : Int) - 1) / 12 = year := by omega
  have hmonth : ((12 * year + (month : Int) - 1) % 12).toNat + 1 = month := by omega
  rw [monthDay, hyear, hmonth]

theorem monthDay_succ (year : Int) (month : Nat) (h : 1 ≤ month ∧ month ≤ 12) :
    monthDay (12 * year + month) = dayNumber ⟨year, month, 1⟩ + daysInMonth year month := by
  obtain ⟨h1, h12⟩ := h
  by_cases hlast : month = 12
  · -- December ends where January of the next year starts
    subst hlast
    have := monthDay_eq (year + 1) 1 (by omega)
    rw [show 12 * year + ((12 : Nat) : Int) = 12 * (year + 1) + ((1 : Nat) : Int) - 1 by omega,
      this]
    simp only [dayNumber, daysInMonth, monthStart]
    norm_num
    omega
  · have := monthDay_eq year (month + 1) (by omega)
    rw [show 12 * year + (month : Int) = 12 * year + ((month + 1 : Nat) : Int) - 1 by omega, this]
    have hsub := yearStart_sub year
    interval_cases month
    all_goals simp only [dayNumber, daysInMonth, monthStart]
    all_goals norm_num
    all_goals split at hsub <;> simp_all <;> omega

theorem monthDay_add_one (i : Int) :
    monthDay (i + 1) = monthDay i + daysInMonth (i / 12) ((i % 12).toNat + 1) := by
  have h := monthDay_succ (i / 12) ((i % 12).toNat + 1) (by omega)
  rwa [show 12 * (i / 12) + (((i % 12).toNat + 1 : Nat) : Int) = i + 1 by omega] at h

theorem monthDay_le {i j : Int} (h : i ≤ j) : monthDay i ≤ monthDay j := by
  obtain ⟨n, rfl⟩ := Int.le.dest h
  induction n with
  | zero => simp
  | succ n ih =>
    have hstep := monthDay_add_one (i + n)
    have := ih (by omega)
    rw [show i + ((n + 1 : Nat) : Int) = i + n + 1 by omega]
    omega

theorem dayNumber_eq_monthDay {c : Civil} (h : c.isValid = true) :
    c.dayNumber = monthDay c.monthIndex + c.day - 1 := by
  rw [monthIndex, monthDay_eq c.year c.month (month_le_of_isValid h)]
  simp only [dayNumber]
  split <;> omega

theorem day_le_daysInMonth {c : Civil} (h : c.isValid = true) :
    c.day ≤ daysInMonth c.year c.month := by
  simp only [isValid, Bool.and_eq_true, decide_eq_true_eq] at h
  exact h.2

theorem dayNumber_lt_of_monthIndex_lt {c c' : Civil} (hc : c.isValid = true)
    (hc' : c'.isValid = true) (h : c.monthIndex < c'.monthIndex) :
    c.dayNumber < c'.dayNumber := by
  have hmonth := month_le_of_isValid hc
  have hday' := day_le_of_isValid hc'
  have hday := day_le_daysInMonth hc
  have hend : monthDay (c.monthIndex + 1) = monthDay c.monthIndex + daysInMonth c.year c.month := by
    rw [monthIndex, Int.sub_add_cancel, monthDay_succ c.year c.month hmonth,
      monthDay_eq c.year c.month hmonth]
  have hle := monthDay_le (show c.monthIndex + 1 ≤ c'.monthIndex by omega)
  rw [dayNumber_eq_monthDay hc, dayNumber_eq_monthDay hc']
  omega

/-- **Of two civil dates the earlier one has the smaller year, month or day**, the first of them
that differs. -/
theorem dayNumber_lt_iff {c c' : Civil} (h : c.isValid = true) (h' : c'.isValid = true) :
    c.dayNumber < c'.dayNumber ↔
      c.year < c'.year ∨ c.year = c'.year ∧
        (c.month < c'.month ∨ c.month = c'.month ∧ c.day < c'.day) := by
  have hmonth := month_le_of_isValid h
  have hmonth' := month_le_of_isValid h'
  rcases Int.lt_trichotomy c.monthIndex c'.monthIndex with hlt | heq | hgt
  · have hday := dayNumber_lt_of_monthIndex_lt h h' hlt
    rw [monthIndex, monthIndex] at hlt
    omega
  · rw [dayNumber_eq_monthDay h, dayNumber_eq_monthDay h', heq]
    rw [monthIndex, monthIndex] at heq
    omega
  · have hday := dayNumber_lt_of_monthIndex_lt h' h hgt
    rw [monthIndex, monthIndex] at hgt
    omega

theorem eq_of_dayNumber_eq {c c' : Civil} (h : c.isValid = true) (h' : c'.isValid = true)
    (heq : c.dayNumber = c'.dayNumber) : c = c' := by
  have hlt := (dayNumber_lt_iff h h').not.1 (by omega)
  have hgt := (dayNumber_lt_iff h' h).not.1 (by omega)
  obtain ⟨year, month, day⟩ := c
  obtain ⟨year', month', day'⟩ := c'
  simp only [mk.injEq]
  dsimp only at hlt hgt
  omega

theorem date?_eq_some_iff {c : Civil} {d : Date} :
    c.date? = some d ↔ c.isValid = true ∧ d.day = c.dayNumber := by
  rw [date?]
  split
  · rename_i h
    rw [Date.ofDay?_eq_some_iff, and_iff_right h]
  · rename_i h
    constructor
    · intro h'
      cases h'
    · intro h'
      exact absurd h'.1 h

theorem date?_eq_some_iff_civil_eq {c : Civil} {d : Date} : c.date? = some d ↔ d.civil = c := by
  constructor
  · intro h
    obtain ⟨hvalid, hday⟩ := date?_eq_some_iff.1 h
    exact eq_of_dayNumber_eq d.isValid_civil hvalid (d.dayNumber_civil.trans hday)
  · rintro rfl
    exact d.date?_civil

theorem exists_date?_iff {c : Civil} (h : c.isValid = true) :
    (∃ d, c.date? = some d) ↔ -262143 ≤ c.year ∧ c.year ≤ 262142 := by
  have hmonth := month_le_of_isValid h
  have hday := day_le_of_isValid h
  have hfirst := dayNumber_lt_iff h (show isValid ⟨-262143, 1, 1⟩ = true by decide)
  have hlast := dayNumber_lt_iff (show isValid ⟨262142, 12, 31⟩ = true by decide) h
  rw [show dayNumber ⟨-262143, 1, 1⟩ = -95745824 by decide] at hfirst
  rw [show dayNumber ⟨262142, 12, 31⟩ = 95745704 by decide] at hlast
  dsimp only at hfirst hlast
  constructor
  · rintro ⟨d, hd⟩
    obtain ⟨_, hnumber⟩ := date?_eq_some_iff.1 hd
    have hrange := d.inRange
    omega
  · rintro ⟨hlow, hhigh⟩
    refine ⟨⟨c.dayNumber, by omega⟩, date?_eq_some_iff.2 ⟨h, rfl⟩⟩

theorem one_le_daysInMonth (year : Int) (month : Nat) : 1 ≤ daysInMonth year month := by
  unfold daysInMonth
  split
  · split <;> decide
  all_goals decide

end Civil

namespace Date

/-- A date lies a number of months after another, its day cut to the length of its month. -/
structure MonthsAfter (d : Date) (n : Int) (e : Date) : Prop where
  month : 12 * e.civil.year + e.civil.month = 12 * d.civil.year + d.civil.month + n
  day : e.civil.day = Nat.min d.civil.day (daysInMonth e.civil.year e.civil.month)

theorem addMonths?_eq_some_iff {d e : Date} {n : Int} :
    d.addMonths? n = some e ↔ d.MonthsAfter n e := by
  have hmonth := Civil.month_le_of_isValid e.isValid_civil
  rw [addMonths?, ofCivil?, Civil.date?_eq_some_iff_civil_eq]
  generalize htotal : 12 * d.civil.year + (d.civil.month : Int) - 1 + n = total
  constructor
  · intro h
    refine ⟨?_, ?_⟩
    · rw [h]
      dsimp only
      omega
    · rw [h]
  · rintro ⟨hmonth', hday⟩
    have hyear : e.civil.year = total / 12 := by omega
    have hindex : e.civil.month = (total % 12).toNat + 1 := by omega
    rw [← hyear, ← hindex, ← hday]

theorem MonthsAfter.unique {d e e' : Date} {n : Int} (h : d.MonthsAfter n e)
    (h' : d.MonthsAfter n e') : e = e' :=
  Option.some.inj ((addMonths?_eq_some_iff.2 h).symm.trans (addMonths?_eq_some_iff.2 h'))

theorem monthsAfter_zero (d : Date) : d.MonthsAfter 0 d :=
  ⟨(Int.add_zero _).symm, (Nat.min_eq_left (Civil.day_le_daysInMonth d.isValid_civil)).symm⟩

/-- **The month reached decides whether the calendar has the date**: it does if the year is one of
the calendar's. -/
theorem exists_monthsAfter_iff {d : Date} {n : Int} : (∃ e, d.MonthsAfter n e) ↔
    -262143 ≤ (12 * d.civil.year + d.civil.month - 1 + n) / 12 ∧
      (12 * d.civil.year + d.civil.month - 1 + n) / 12 ≤ 262142 := by
  simp only [← addMonths?_eq_some_iff]
  rw [addMonths?, ofCivil?]
  refine Civil.exists_date?_iff ?_
  have hday := (Civil.day_le_of_isValid d.isValid_civil).1
  generalize (12 * d.civil.year + (d.civil.month : Int) - 1 + n) = total
  have hlength := Civil.one_le_daysInMonth (total / 12) ((total % 12).toNat + 1)
  simp only [Civil.isValid, Bool.and_eq_true, decide_eq_true_eq]
  refine ⟨⟨⟨by omega, by omega⟩, ?_⟩, Nat.min_le_right _ _⟩
  exact Nat.le_min.2 ⟨hday, hlength⟩

/-- A date fewer months after is no later, although its day may be cut less. -/
theorem MonthsAfter.mono {d e e' : Date} {n n' : Int} (h : d.MonthsAfter n e)
    (h' : d.MonthsAfter n' e') (hn : n ≤ n') : e ≤ e' := by
  rcases Int.lt_or_eq_of_le hn with hlt | rfl
  · have hindex : e.civil.monthIndex < e'.civil.monthIndex := by
      rw [Civil.monthIndex, Civil.monthIndex, h.month, h'.month]
      omega
    have hday := Civil.dayNumber_lt_of_monthIndex_lt e.isValid_civil e'.isValid_civil hindex
    rw [dayNumber_civil, dayNumber_civil] at hday
    exact le_of_lt hday
  · exact h.unique h' ▸ le_refl e

/-- **A move by years, months and days**: the count of months stays within 64 bits, and the date so
many months later is moved by the days. -/
theorem shift?_eq_some_iff {d d' : Date} {years months days : Int} :
    d.shift? years months days = some d' ↔
      isInt64 (12 * years) = true ∧ isInt64 (12 * years + months) = true ∧
        ∃ e, d.MonthsAfter (12 * years + months) e ∧ d'.day = e.day + days := by
  rw [shift?, Int.mul_comm years 12, Option.ite_none_right_eq_some, Bool.and_eq_true, and_assoc,
    Option.bind_eq_some_iff]
  simp only [addMonths?_eq_some_iff, addDays?_eq_some_iff]

/-- **Moves that take more lead no less far.** -/
theorem shift?_mono {d e e' : Date} {years years' months months' days days' : Int}
    (hy : years ≤ years') (hm : months ≤ months') (hd : days ≤ days')
    (h : d.shift? years months days = some e) (h' : d.shift? years' months' days' = some e') :
    e ≤ e' := by
  obtain ⟨_, _, a, ha, hday⟩ := shift?_eq_some_iff.1 h
  obtain ⟨_, _, a', ha', hday'⟩ := shift?_eq_some_iff.1 h'
  have hle := ha.mono ha' (by omega)
  rw [le_def] at hle ⊢
  omega

theorem shift?_zero (d : Date) : d.shift? 0 0 0 = some d :=
  shift?_eq_some_iff.2 ⟨rfl, rfl, d, d.monthsAfter_zero, (Int.add_zero _).symm⟩

/-- **A move back is never a move forward**, whichever of years, months and days it takes. -/
theorem le_of_shift? {d d' : Date} {years months days : Int} (hy : years ≤ 0) (hm : months ≤ 0)
    (hd : days ≤ 0) (h : d.shift? years months days = some d') : d' ≤ d :=
  shift?_mono hy hm hd h d.shift?_zero

end Date

end FactorPortfolio
