import FactorPortfolio.Calendar.Date
import Mathlib.Tactic.Common

/-!
# The order of dates

Dates compare as their day numbers.  The move `back`, which is cut short at the start of the
calendar, is then plain arithmetic: the day number moved, but not past the start.
-/

namespace FactorPortfolio.Date

theorem compare_eq (a b : Date) : compare a b = compare a.day b.day := rfl

theorem isLE_compare {a b : Date} : (compare a b).isLE = true ↔ a ≤ b := by
  rw [compare_eq, le_def, Int.isLE_compare]

theorem compare_eq_lt {a b : Date} : compare a b = .lt ↔ a < b := by
  rw [compare_eq, lt_def, Int.compare_eq_lt]

@[simp] theorem le_refl (a : Date) : a ≤ a := Int.le_refl a.day

theorem le_trans {a b c : Date} (h : a ≤ b) (h' : b ≤ c) : a ≤ c := Int.le_trans h h'

theorem le_antisymm {a b : Date} (h : a ≤ b) (h' : b ≤ a) : a = b :=
  day_injective (Int.le_antisymm h h')

theorem le_of_lt {a b : Date} (h : a < b) : a ≤ b := Int.le_of_lt h

theorem lt_of_le_of_lt {a b c : Date} (h : a ≤ b) (h' : b < c) : a < c :=
  Int.lt_of_le_of_lt h h'

theorem lt_of_lt_of_le {a b c : Date} (h : a < b) (h' : b ≤ c) : a < c :=
  Int.lt_of_lt_of_le h h'

theorem lt_irrefl (a : Date) : ¬ a < a := Int.lt_irrefl a.day

theorem lt_or_eq_of_le {a b : Date} (h : a ≤ b) : a < b ∨ a = b :=
  (Int.lt_or_eq_of_le h).imp_right day_injective

theorem not_lt {a b : Date} : ¬ a < b ↔ b ≤ a := Int.not_lt

theorem not_le {a b : Date} : ¬ a ≤ b ↔ b < a := Int.not_le

theorem ofDay?_eq_some_iff {n : Int} {d : Date} : ofDay? n = some d ↔ d.day = n := by
  rw [ofDay?]
  constructor
  · intro h
    split at h
    · exact (Option.some.inj h) ▸ rfl
    · cases h
  · rintro rfl
    rw [dif_pos d.inRange]

theorem addDays?_eq_some_iff {d d' : Date} {n : Int} :
    d.addDays? n = some d' ↔ d'.day = d.day + n := ofDay?_eq_some_iff

theorem day_back (d : Date) {n : Int} (h : 0 ≤ n) :
    (d.back n).day = Max.max (d.day - n) (-95745824) := by
  have hrange := d.inRange
  rw [back]
  cases hd : d.addDays? (-n) with
  | some e =>
    have := addDays?_eq_some_iff.1 hd
    have := e.inRange
    simp only [Option.getD_some]
    omega
  | none =>
    rw [addDays?, ofDay?] at hd
    split at hd
    · cases hd
    · show (-95745824 : Int) = _
      omega

theorem day_min (a b : Date) : (a.min b).day = Min.min a.day b.day := by
  rw [Date.min]
  split
  · rename_i h; rw [le_def] at h; omega
  · rename_i h; rw [le_def] at h; omega

theorem day_max (a b : Date) : (a.max b).day = Max.max a.day b.day := by
  rw [Date.max]
  split
  · rename_i h; rw [le_def] at h; omega
  · rename_i h; rw [le_def] at h; omega

theorem min_le_left (a b : Date) : a.min b ≤ a := by rw [le_def, day_min]; omega

theorem min_le_right (a b : Date) : a.min b ≤ b := by rw [le_def, day_min]; omega

theorem le_max_left (a b : Date) : a ≤ a.max b := by rw [le_def, day_max]; omega

theorem le_max_right (a b : Date) : b ≤ a.max b := by rw [le_def, day_max]; omega

theorem max_le {a b c : Date} (ha : a ≤ c) (hb : b ≤ c) : a.max b ≤ c := by
  rw [le_def] at *
  rw [day_max]
  omega

theorem max_eq_right {a b : Date} (h : a ≤ b) : a.max b = b := by rw [Date.max, if_pos h]

theorem min_eq_or (a b : Date) : a.min b = a ∨ a.min b = b := by
  rw [Date.min]
  split
  · exact .inl rfl
  · exact .inr rfl

theorem max_eq_or (a b : Date) : a.max b = a ∨ a.max b = b := by
  rw [Date.max]
  split
  · exact .inr rfl
  · exact .inl rfl

theorem back_le (d : Date) {n : Int} (h : 0 ≤ n) : d.back n ≤ d := by
  have hrange := d.inRange
  rw [le_def, day_back d h]
  omega

/-- Going back keeps the order, also where it is cut short. -/
theorem back_le_back {a b : Date} (hab : a ≤ b) {n : Int} (h : 0 ≤ n) : a.back n ≤ b.back n := by
  rw [le_def] at hab ⊢
  rw [day_back a h, day_back b h]
  omega

/-! ### Ascending dates -/

theorem nodup_of_pairwise {days : List Date} (h : days.Pairwise (· < ·)) : days.Nodup := by
  refine h.imp ?_
  rintro d _ hlt rfl
  exact lt_irrefl d hlt

/-- There are no more ascending dates than days in the calendar. -/
theorem length_le_of_pairwise {days : List Date} (h : days.Pairwise (· < ·)) :
    days.length ≤ 191491529 := by
  have aux : ∀ {days : List Date} (first : Int), days.Pairwise (· < ·) →
      (∀ d ∈ days, first ≤ d.day) → (days.length : Int) ≤ Max.max 0 (95745705 - first) := by
    intro days
    induction days with
    | nil =>
      intro first _ _
      exact Int.le_max_left _ _
    | cons d days ih =>
      intro first hdays hfirst
      obtain ⟨hlater, hdays⟩ := List.pairwise_cons.1 hdays
      have hrest := ih (d.day + 1) hdays fun d' hd' => hlater d' hd'
      have hd := hfirst d List.mem_cons_self
      have hlast := d.inRange.2
      rw [List.length_cons]
      omega
  have hall := aux (-95745824) h fun d _ => d.inRange.1
  omega

theorem head?_eq_some_iff {days : List Date} (h : days.Pairwise (· < ·)) {d : Date} :
    days.head? = some d ↔ d ∈ days ∧ ∀ d' ∈ days, d ≤ d' := by
  cases days with
  | nil => simp
  | cons e days =>
    have hearliest : ∀ d' ∈ e :: days, e ≤ d' := by
      intro d' hd'
      rcases List.mem_cons.1 hd' with rfl | hd'
      · exact le_refl d'
      · exact le_of_lt ((List.pairwise_cons.1 h).1 d' hd')
    rw [List.head?_cons, Option.some.injEq]
    constructor
    · rintro rfl
      exact ⟨List.mem_cons_self, hearliest⟩
    · rintro ⟨hd, hmin⟩
      exact le_antisymm (hearliest d hd) (hmin e List.mem_cons_self)

theorem getLast?_eq_some_iff {days : List Date} (h : days.Pairwise (· < ·)) {d : Date} :
    days.getLast? = some d ↔ d ∈ days ∧ ∀ d' ∈ days, d' ≤ d := by
  rw [List.getLast?_eq_some_iff]
  constructor
  · rintro ⟨before, rfl⟩
    refine ⟨by simp, fun d' hd' => ?_⟩
    rcases List.mem_append.1 hd' with hbefore | hlast
    · exact le_of_lt ((List.pairwise_append.1 h).2.2 d' hbefore d List.mem_cons_self)
    · rw [List.mem_singleton.1 hlast]
      exact le_refl d
  · rintro ⟨hd, hmax⟩
    obtain ⟨before, after, rfl⟩ := List.append_of_mem hd
    cases after with
    | nil => exact ⟨before, rfl⟩
    | cons d' after =>
      -- a date to the right is later
      have hlt := (List.pairwise_cons.1 (List.pairwise_append.1 h).2.1).1 d' List.mem_cons_self
      exact absurd hlt (not_lt.2 (hmax d' (by simp)))

theorem filter_append_filter {days : List Date} (h : days.Pairwise (· < ·)) (d : Date) :
    days.filter (· ≤ d) ++ days.filter (d < ·) = days := by
  induction days with
  | nil => rfl
  | cons e days ih =>
    obtain ⟨he, hdays⟩ := List.pairwise_cons.1 h
    by_cases hed : e ≤ d
    · rw [List.filter_cons_of_pos (by simpa using hed),
        List.filter_cons_of_neg (by simpa using not_lt.2 hed), List.cons_append, ih hdays]
    · have hlate : ∀ e' ∈ e :: days, d < e' := by
        intro e' he'
        rcases List.mem_cons.1 he' with rfl | he'
        · exact not_le.1 hed
        · exact lt_of_lt_of_le (not_le.1 hed) (le_of_lt (he e' he'))
      rw [List.filter_eq_nil_iff.2 fun e' he' => by simpa using not_le.2 (hlate e' he'),
        List.filter_eq_self.2 fun e' he' => decide_eq_true (hlate e' he'), List.nil_append]

theorem all_getLast?_lt_iff {days : List Date} (h : days.Pairwise (· < ·)) {d : Date} :
    (days.getLast?.all fun last => last < d) = true ↔ ∀ d' ∈ days, d' < d := by
  cases hlast : days.getLast? with
  | none => simp [List.getLast?_eq_none_iff.1 hlast]
  | some last =>
    obtain ⟨hmem, hmax⟩ := (getLast?_eq_some_iff h).1 hlast
    rw [Option.all_some, decide_eq_true_iff]
    exact ⟨fun hlt d' hd' => lt_of_le_of_lt (hmax d' hd') hlt, fun hall => hall last hmem⟩

end FactorPortfolio.Date
