import FactorPortfolio.Proofs.Calendar.Shift
import FactorPortfolio.Proofs.Calendar.Text
import Mathlib.Data.List.Induction

/-!
# Dates sort like their texts

A text of digits of one width is less than another where its number is (`padded_lt_padded_iff`),
and a civil date comes before another where its year, its month or its day is less, the first of
them that differs deciding (`Civil.dayNumber_lt_iff`).  A date whose year is written with four
digits and no sign is both: year, month and day in fixed widths, one after the other.  So such
dates compare as their texts do: `Date.compare_text`.
-/

namespace FactorPortfolio

open Text Decimal

/-! ### Texts of one width -/

/-- Of texts that start with equally many characters these decide, where they differ. -/
theorem Text.append_lt_append_iff {u u' v v' : List Char} (h : u.length = u'.length) :
    u ++ v < u' ++ v' ↔ u < u' ∨ u = u' ∧ v < v' := by
  induction u generalizing u' with
  | nil =>
    obtain rfl := List.length_eq_zero_iff.1 h.symm
    simp
  | cons c u ih =>
    obtain ⟨c', u', rfl⟩ := List.exists_cons_of_length_eq_add_one h.symm
    rw [List.cons_append, List.cons_append, List.cons_lt_cons_iff, List.cons_lt_cons_iff,
      ih (Nat.succ.inj h), List.cons.injEq]
    tauto

namespace Decimal

theorem digitValue_lt {c : Char} (h : isDigit c = true) : digitValue c < 10 := by
  have := toNat_of_isDigit h
  rw [digitValue]
  omega

theorem lt_iff_digitValue_lt {c c' : Char} (h : isDigit c = true) (h' : isDigit c' = true) :
    c < c' ↔ digitValue c < digitValue c' := by
  have := toNat_of_isDigit h
  have := toNat_of_isDigit h'
  have hlt : c < c' ↔ c.toNat < c'.toNat := UInt32.lt_iff_toNat_lt
  rw [hlt, digitValue, digitValue]
  omega

theorem eq_of_digitValue_eq {c c' : Char} (h : isDigit c = true) (h' : isDigit c' = true)
    (heq : digitValue c = digitValue c') : c = c' := by
  have := toNat_of_isDigit h
  have := toNat_of_isDigit h'
  rw [digitValue, digitValue] at heq
  exact Char.toNat_inj.1 (by omega)

theorem lt_iff_ofDigits_lt {ds ds' : List Char} (hds : ∀ c ∈ ds, isDigit c = true)
    (hds' : ∀ c ∈ ds', isDigit c = true) (hlen : ds.length = ds'.length) :
    (ds < ds' ↔ ofDigits ds < ofDigits ds') ∧ (ofDigits ds = ofDigits ds' → ds = ds') := by
  -- the last digit decides only where all before it are the same
  induction ds using List.reverseRecOn generalizing ds' with
  | nil =>
    obtain rfl := List.length_eq_zero_iff.1 hlen.symm
    simp
  | append_singleton ds c ih =>
    cases ds' using List.reverseRecOn with
    | nil => simp at hlen
    | append_singleton ds' c' =>
      simp only [List.mem_append, List.mem_singleton, or_imp, forall_and, forall_eq] at hds hds'
      simp only [List.length_append, List.length_singleton, Nat.add_right_cancel_iff] at hlen
      obtain ⟨hlt, hinj⟩ := ih hds.1 hds'.1 hlen
      have heq : ds = ds' ↔ ofDigits ds = ofDigits ds' := ⟨congrArg ofDigits, hinj⟩
      have hc : [c] < [c'] ↔ digitValue c < digitValue c' := by
        rw [List.cons_lt_cons_iff, lt_iff_digitValue_lt hds.2 hds'.2]
        simp
      have hx := digitValue_lt hds.2
      have hx' := digitValue_lt hds'.2
      rw [ofDigits_append_singleton, ofDigits_append_singleton]
      constructor
      · rw [append_lt_append_iff hlen, hlt, heq, hc]
        omega
      · intro h
        rw [hinj (by omega), eq_of_digitValue_eq hds.2 hds'.2 (by omega)]

/-- **Numbers padded to one width compare as their texts do.** -/
theorem padded_lt_padded_iff {width n n' : Nat} (hw : 1 ≤ width) (h : n < Nat.pow 10 width)
    (h' : n' < Nat.pow 10 width) :
    (padded width n).toList < (padded width n').toList ↔ n < n' := by
  have hlen := (length_padded hw h).trans (length_padded hw h').symm
  have := (lt_iff_ofDigits_lt isDigit_of_mem_padded isDigit_of_mem_padded hlen).1
  rwa [ofDigits_padded, ofDigits_padded] at this

theorem toList_padded_inj {width n n' : Nat} :
    (padded width n).toList = (padded width n').toList ↔ n = n' := by
  refine ⟨fun h => ?_, fun h => h ▸ rfl⟩
  have := congrArg ofDigits h
  rwa [ofDigits_padded, ofDigits_padded] at this

/-- A number and a hyphen at the front of a text decide before what follows them. -/
theorem padded_append_lt_iff {width n n' : Nat} {v v' : List Char} (hw : 1 ≤ width)
    (h : n < Nat.pow 10 width) (h' : n' < Nat.pow 10 width) :
    (padded width n).toList ++ '-' :: v < (padded width n').toList ++ '-' :: v' ↔
      n < n' ∨ n = n' ∧ v < v' := by
  rw [append_lt_append_iff ((length_padded hw h).trans (length_padded hw h').symm),
    padded_lt_padded_iff hw h h', toList_padded_inj, List.cons_lt_cons_iff]
  simp

end Decimal

/-! ### The order of texts -/

namespace Date

/-- The year is written with four digits and no sign. -/
def FourDigitYear (d : Date) : Prop := 0 ≤ d.civil.year ∧ d.civil.year ≤ 9999

instance (d : Date) : Decidable d.FourDigitYear := inferInstanceAs (Decidable (_ ∧ _))

variable {d d' : Date}

theorem text_injective (h : d.text = d'.text) : d = d' := by
  have hread := congrArg ofText? h
  rwa [ofText?_text, ofText?_text, Option.some.injEq] at hread

theorem toList_text_of_fourDigitYear (h : d.FourDigitYear) : d.text.toList =
    (padded 4 d.civil.year.toNat).toList ++ '-' ::
      ((padded 2 d.civil.month).toList ++ '-' :: (padded 2 d.civil.day).toList) := by
  rw [toList_text, yearText, if_pos (show 0 ≤ d.civil.year ∧ d.civil.year ≤ 9999 from h),
    List.append_nil]

/-- The texts differ first in the year, the month or the day, and so do the dates. -/
theorem text_lt_text_iff (h : d.FourDigitYear) (h' : d'.FourDigitYear) :
    d.text < d'.text ↔ d < d' := by
  have hcivil : d < d' ↔ d.civil.dayNumber < d'.civil.dayNumber := by
    rw [lt_def, dayNumber_civil, dayNumber_civil]
  obtain ⟨hy0, hy⟩ := h
  obtain ⟨hy0', hy'⟩ := h'
  have hm := Civil.month_le_of_isValid d.isValid_civil
  have hm' := Civil.month_le_of_isValid d'.isValid_civil
  have hd := Civil.day_le_of_isValid d.isValid_civil
  have hd' := Civil.day_le_of_isValid d'.isValid_civil
  rw [hcivil, Civil.dayNumber_lt_iff d.isValid_civil d'.isValid_civil, String.lt_iff,
    toList_text_of_fourDigitYear ⟨hy0, hy⟩, toList_text_of_fourDigitYear ⟨hy0', hy'⟩,
    padded_append_lt_iff (by omega) (show _ < 10000 by omega) (show _ < 10000 by omega),
    padded_append_lt_iff (by omega) (show _ < 100 by omega) (show _ < 100 by omega),
    padded_lt_padded_iff (by omega) (show _ < 100 by omega) (show _ < 100 by omega)]
  omega

/-- **Dates with years of four digits compare as their texts do.** -/
theorem compare_text (h : d.FourDigitYear) (h' : d'.FourDigitYear) :
    compare d.text d'.text = compare d d' := by
  rcases Int.lt_trichotomy d.day d'.day with hlt | heq | hgt
  · rw [compare_eq_lt.2 hlt]
    exact compareOfLessAndEq_eq_lt.2 ((text_lt_text_iff h h').2 hlt)
  · rw [day_injective heq, Std.ReflOrd.compare_self, Std.ReflOrd.compare_self]
  · rw [Std.OrientedCmp.gt_of_lt (compare_eq_lt.2 hgt), Std.OrientedCmp.gt_iff_lt]
    exact compareOfLessAndEq_eq_lt.2 ((text_lt_text_iff h' h).2 hgt)

end Date

end FactorPortfolio
