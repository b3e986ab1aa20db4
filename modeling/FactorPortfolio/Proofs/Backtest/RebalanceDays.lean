import FactorPortfolio.Backtest.Days
import FactorPortfolio.Proofs.Calendar.Search
import Mathlib.Tactic.Common

/-!
# Which days are rebalanced

The walk over the calendar takes trading days only, in ascending order, from where it starts up to
its end (`mem_walk`, `walk_pairwise`).  A walk that ends earlier takes the same days as far as it
goes, if there are steps enough for both: `walk_eq_filter`, and for the days of a run
`select_eq_filter`.
-/

namespace FactorPortfolio.RebalanceDays

variable {tradingDays tradingDays' : List Date} {stop stop' : Date} {interval : Int}

theorem lt_of_addDays? {d next : Date} {n : Int} (hn : 1 ≤ n) (h : d.addDays? n = some next) :
    d < next := by
  have hday := Date.addDays?_eq_some_iff.1 h
  rw [Date.lt_def]
  omega

theorem mem_walk (hinterval : 1 ≤ interval) {steps : Nat} {d e : Date}
    (h : e ∈ walk tradingDays stop interval steps d) :
    e.isIn tradingDays = true ∧ d ≤ e ∧ e ≤ stop := by
  fun_induction walk tradingDays stop interval steps d with
  | case1 => cases h
  | case2 steps d hstop hin next hnext ih =>
    rcases List.mem_cons.1 h with rfl | h
    · exact ⟨hin, Date.le_refl e, hstop⟩
    · obtain ⟨he, hle, hestop⟩ := ih h
      exact ⟨he, Date.le_trans (Date.le_of_lt (lt_of_addDays? hinterval hnext)) hle, hestop⟩
  | case3 steps d hstop hin hnext =>
    rw [List.mem_singleton.1 h]
    exact ⟨hin, Date.le_refl d, hstop⟩
  | case4 steps d hstop hin next hnext ih =>
    obtain ⟨he, hle, hestop⟩ := ih h
    exact ⟨he, Date.le_trans (Date.le_of_lt (lt_of_addDays? (Int.le_refl 1) hnext)) hle, hestop⟩
  | case5 => cases h
  | case6 => cases h

theorem walk_pairwise (hinterval : 1 ≤ interval) (steps : Nat) (d : Date) :
    (walk tradingDays stop interval steps d).Pairwise (· < ·) := by
  fun_induction walk tradingDays stop interval steps d with
  | case1 => exact .nil
  | case2 steps d hstop hin next hnext ih =>
    refine List.pairwise_cons.2 ⟨?_, ih⟩
    intro e he
    exact Date.lt_of_lt_of_le (lt_of_addDays? hinterval hnext) (mem_walk hinterval he).2.1
  | case3 => exact List.pairwise_singleton _ _
  | case4 steps d hstop hin next hnext ih => exact ih
  | case5 => exact .nil
  | case6 => exact .nil

theorem walk_of_lt (steps : Nat) {d : Date} (h : stop < d) :
    walk tradingDays stop interval steps d = [] := by
  cases steps with
  | zero => rfl
  | succ steps => rw [walk, if_neg (Date.not_le.2 h)]

theorem filter_walk_of_lt (hinterval : 1 ≤ interval) {steps : Nat} {d : Date} (h : stop < d) :
    (walk tradingDays' stop' interval steps d).filter (· ≤ stop) = [] := by
  rw [List.filter_eq_nil_iff]
  intro e he hle
  have hlate := (mem_walk hinterval he).2.1
  exact Date.not_lt.2 (Date.le_trans hlate (of_decide_eq_true hle)) h

/-- **A walk that ends earlier goes the same way**, as far as it goes. -/
theorem walk_eq_filter (hinterval : 1 ≤ interval) (hstop : stop ≤ stop')
    (hin : ∀ e, e ≤ stop → e.isIn tradingDays = e.isIn tradingDays') {steps steps' : Nat} {d : Date}
    (hsteps : stop.day < d.day + steps) (hsteps' : stop'.day < d.day + steps') :
    walk tradingDays stop interval steps d =
      (walk tradingDays' stop' interval steps' d).filter (· ≤ stop) := by
  induction steps generalizing steps' d with
  | zero => exact (filter_walk_of_lt hinterval (Date.lt_def.2 (by omega))).symm
  | succ steps ih =>
    by_cases hd : d ≤ stop
    · have hd' := Date.le_trans hd hstop
      have hday' := Date.le_def.1 hd'
      obtain ⟨steps', rfl⟩ : ∃ n, steps' = n + 1 := ⟨steps' - 1, by omega⟩
      have hnext : ∀ {n : Int} {next : Date}, 1 ≤ n → d.addDays? n = some next →
          walk tradingDays stop interval steps next =
            (walk tradingDays' stop' interval steps' next).filter (· ≤ stop) := by
        intro n next hn hadd
        have hday := Date.addDays?_eq_some_iff.1 hadd
        exact ih (by omega) (by omega)
      rw [walk, walk, if_pos hd, if_pos hd', hin d hd]
      cases d.isIn tradingDays' with
      | true =>
        simp only [if_true]
        cases hadd : d.addDays? interval with
        | none => simp [hd]
        | some next => simp [hd, hnext hinterval hadd]
      | false =>
        simp only [Bool.false_eq_true, if_false]
        cases hadd : d.addDays? 1 with
        | none => rfl
        | some next => exact hnext (Int.le_refl 1) hadd
    · rw [walk_of_lt _ (Date.not_le.1 hd), filter_walk_of_lt hinterval (Date.not_le.1 hd)]

theorem select_pairwise (tradingDays : List Date) (stop : Date) (interval : Int) :
    (select tradingDays stop interval).Pairwise (· < ·) := by
  rw [select]
  split
  · exact .nil
  · exact walk_pairwise (Int.le_max_right interval 1) _ _

/-- **An earlier end leaves out the days after it**, and no other. -/
theorem select_eq_filter (hstop : stop ≤ stop') (hascending : tradingDays.Pairwise (· < ·))
    (hascending' : tradingDays'.Pairwise (· < ·))
    (hmem : ∀ e, e ∈ tradingDays ↔ e ∈ tradingDays' ∧ e ≤ stop) (interval : Int) :
    select tradingDays stop interval =
      (select tradingDays' stop' interval).filter (· ≤ stop) := by
  have hinterval := Int.le_max_right interval 1
  have hin : ∀ e, e ≤ stop → e.isIn tradingDays = e.isIn tradingDays' := by
    intro e he
    rw [Bool.eq_iff_iff, Date.isIn_iff_mem hascending, Date.isIn_iff_mem hascending', hmem]
    exact and_iff_left he
  have hsteps : ∀ first stop : Date,
      stop.day < first.day + ((first.daysBetween stop).toNat + 1 : Nat) := by
    intro first stop
    rw [Date.daysBetween]
    omega
  rw [select, select]
  cases hhead : tradingDays.head? with
  | some first =>
    obtain ⟨hfirst, hmin⟩ := (Date.head?_eq_some_iff hascending).1 hhead
    obtain ⟨hfirst', hle⟩ := (hmem first).1 hfirst
    have hhead' : tradingDays'.head? = some first := by
      refine (Date.head?_eq_some_iff hascending').2 ⟨hfirst', ?_⟩
      intro e he
      by_cases hestop : e ≤ stop
      · exact hmin e ((hmem e).2 ⟨he, hestop⟩)
      · exact Date.le_trans hle (Date.le_of_lt (Date.not_le.1 hestop))
    rw [hhead']
    exact walk_eq_filter hinterval hstop hin (hsteps first stop) (hsteps first stop')
  | none =>
    cases hhead' : tradingDays'.head? with
    | none => rfl
    | some first' =>
      -- the first trading day comes after the end
      have hlate : stop < first' := by
        rw [← Date.not_le]
        intro hle
        have hfirst := (hmem first').2
          ⟨((Date.head?_eq_some_iff hascending').1 hhead').1, hle⟩
        rw [List.head?_eq_none_iff.1 hhead] at hfirst
        cases hfirst
      exact (filter_walk_of_lt hinterval hlate).symm

end FactorPortfolio.RebalanceDays
