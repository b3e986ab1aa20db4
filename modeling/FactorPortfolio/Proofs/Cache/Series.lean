import FactorPortfolio.Cache.Load
import FactorPortfolio.Proofs.Calendar.Order
import FactorPortfolio.Proofs.Table
import Mathlib.Tactic.Common

/-!
# Parts of a price series

A series that is cut out of another one serves every look-up that stays inside the cut:
`between_between`, `latestWithin_between`.  What is known up to a day serves every look-up up to
that day: `between_upTo`, `latestWithin_upTo`.

What stands last in a part of a series is its latest entry with a date of that part (`Latest`), so
that a price is the latest of its week: `latestWithin_eq_some_iff`.
-/

namespace FactorPortfolio.Series

variable {α : Type} (s : Series α) {low high low' high' d date : Date}

theorem get?_between (low high d : Date) :
    (Table.between s low high).get? d = if low ≤ d ∧ d ≤ high then s.get? d else none := by
  have hkeep : ((compare low d).isLE && (compare d high).isLE) = decide (low ≤ d ∧ d ≤ high) := by
    rw [Bool.eq_iff_iff, Bool.and_eq_true, Date.isLE_compare, Date.isLE_compare,
      decide_eq_true_iff]
  rw [Table.between, Table.get?_filter, hkeep]
  by_cases h : low ≤ d ∧ d ≤ high
  · cases Table.get? s d <;> simp [h]
  · cases Table.get? s d <;> simp [h]

theorem get?_upTo (high d : Date) :
    (Table.upTo s high).get? d = if d ≤ high then s.get? d else none := by
  have hkeep : (compare d high).isLE = decide (d ≤ high) := by
    rw [Bool.eq_iff_iff, Date.isLE_compare, decide_eq_true_iff]
  rw [Table.upTo, Table.get?_filter, hkeep]
  by_cases h : d ≤ high
  · cases Table.get? s d <;> simp [h]
  · cases Table.get? s d <;> simp [h]

theorem mem_between {e : Date × α} : e ∈ (Table.between s low high).entries ↔
    e ∈ s.entries ∧ low ≤ e.1 ∧ e.1 ≤ high := by
  rw [← Table.get?_eq_some_iff, get?_between, ← Table.get?_eq_some_iff]
  split <;> simp_all

theorem between_congr {s s' : Series α} (h : ∀ d, low ≤ d → d ≤ high → s.get? d = s'.get? d) :
    Table.between s low high = Table.between s' low high := by
  apply Table.ext_get?
  intro d
  rw [get?_between, get?_between]
  split
  · rename_i hd
    exact h d hd.1 hd.2
  · rfl

theorem between_between (hlow : low' ≤ low) (hhigh : high ≤ high') :
    Table.between (Table.between s low' high') low high = Table.between s low high := by
  apply Table.ext_get?
  intro d
  rw [get?_between, get?_between, get?_between]
  split
  · rename_i h
    rw [if_pos ⟨Date.le_trans hlow h.1, Date.le_trans h.2 hhigh⟩]
  · rfl

theorem between_upTo (h : high ≤ d) :
    Table.between (Table.upTo s d) low high = Table.between s low high := by
  apply Table.ext_get?
  intro e
  rw [get?_between, get?_between, get?_upTo]
  split
  · rename_i he
    rw [if_pos (Date.le_trans he.2 h)]
  · rfl

theorem latestWithin_between (hlow : low ≤ date.back gapDays) (hhigh : date ≤ high) :
    Series.latestWithin (Table.between s low high) date = s.latestWithin date := by
  rw [latestWithin, between_between s hlow hhigh, latestWithin]

theorem latestWithin_upTo (h : date ≤ d) :
    Series.latestWithin (Table.upTo s d) date = s.latestWithin date := by
  rw [latestWithin, between_upTo s h, latestWithin]

/-- The latest of the entries with dates in `p`. -/
def Latest (s : Series α) (p : Date → Prop) (x : α) : Prop :=
  ∃ d, p d ∧ s.get? d = some x ∧ ∀ d', d < d' → p d' → s.get? d' = none

/-- What stands last in a part of a series is the latest of the entries kept. -/
theorem last?_eq_some_iff {t : Series α} {p : Date → Prop} [DecidablePred p]
    (h : ∀ d, t.get? d = if p d then s.get? d else none) {x : α} :
    (Table.last? t).map Prod.snd = some x ↔ s.Latest p x := by
  rw [Option.map_eq_some_iff]
  constructor
  · rintro ⟨⟨d, x⟩, hlast, rfl⟩
    obtain ⟨hx, hmax⟩ := Table.last?_eq_some_iff.1 hlast
    rw [h] at hx
    split at hx
    · rename_i hd
      refine ⟨d, hd, hx, fun d' hlt hd' => ?_⟩
      have hnone := hmax d' (Date.compare_eq_lt.2 hlt)
      rwa [h, if_pos hd'] at hnone
    · cases hx
  · rintro ⟨d, hd, hx, hmax⟩
    refine ⟨(d, x), Table.last?_eq_some_iff.2 ⟨by rw [h, if_pos hd, hx], fun d' hlt => ?_⟩, rfl⟩
    rw [h]
    split
    · exact hmax d' (Date.compare_eq_lt.1 hlt) ‹_›
    · rfl

/-- **A price is the one of the latest date of the week.** -/
theorem latestWithin_eq_some_iff {x : α} : s.latestWithin date = some x ↔
    s.Latest (fun d => date.back gapDays ≤ d ∧ d ≤ date) x :=
  s.last?_eq_some_iff (s.get?_between (date.back gapDays) date)

end FactorPortfolio.Series
