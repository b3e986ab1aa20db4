import FactorPortfolio.Proofs.Backtest.RebalanceDays
import Mathlib.Order.Bounds.Defs
import Mathlib.Tactic.Common

/-!
# Rebalance days are chosen greedily

The walk over the calendar is given a number of steps.  `Ends` is the same walk without a limit, as
a relation between the day where it starts and the days that it takes, and `ends_walk` says that as
many steps as there are days up to the end are enough for it to come to an end by itself.

What it takes is read off `Ends`, one case for each way on.  The days begin with the earliest
trading day from the start on (`Ends.head?_eq_some_iff`), and on each of them follows the earliest
trading day that is at least an interval later (`Ends.getElem?_succ_iff`).  No other list of days
does this (`Greedy.unique`), so that `Greedy` says what the rebalance days are:
`select_eq_iff_greedy`.
-/

namespace FactorPortfolio.RebalanceDays

variable {tradingDays : List Date} {stop : Date} {interval : Int}

/-! ### The walk without a limit -/

/-- From the day `d` the walk comes to an end and takes these days. -/
inductive Ends (tradingDays : List Date) (stop : Date) (interval : Int) : Date → List Date → Prop
  | beyond {d : Date} (h : stop < d) : Ends tradingDays stop interval d []
  | taken {d next : Date} {days : List Date} (h : d ≤ stop) (hd : d ∈ tradingDays)
      (hnext : d.addDays? interval = some next) (rest : Ends tradingDays stop interval next days) :
      Ends tradingDays stop interval d (d :: days)
  | takenLast {d : Date} (h : d ≤ stop) (hd : d ∈ tradingDays)
      (hnext : d.addDays? interval = none) : Ends tradingDays stop interval d [d]
  | passed {d next : Date} {days : List Date} (h : d ≤ stop) (hd : d ∉ tradingDays)
      (hnext : d.addDays? 1 = some next) (rest : Ends tradingDays stop interval next days) :
      Ends tradingDays stop interval d days
  | passedLast {d : Date} (h : d ≤ stop) (hd : d ∉ tradingDays)
      (hnext : d.addDays? 1 = none) : Ends tradingDays stop interval d []

/-- **A step for each day up to the end is enough**, since every step leads to a later day. -/
theorem ends_walk (hascending : tradingDays.Pairwise (· < ·)) (hinterval : 1 ≤ interval)
    {steps : Nat} {d : Date} (hsteps : stop.day < d.day + steps) :
    Ends tradingDays stop interval d (walk tradingDays stop interval steps d) := by
  induction steps generalizing d with
  | zero => exact .beyond (Date.lt_def.2 (by omega))
  | succ steps ih =>
    have hlater : ∀ {n : Int} {next : Date}, 1 ≤ n → d.addDays? n = some next →
        Ends tradingDays stop interval next (walk tradingDays stop interval steps next) := by
      intro n next hn hnext
      have hday := Date.addDays?_eq_some_iff.1 hnext
      exact ih (by omega)
    rw [walk]
    by_cases hd : d ≤ stop
    · rw [if_pos hd]
      by_cases hin : d ∈ tradingDays
      · rw [if_pos ((Date.isIn_iff_mem hascending).2 hin)]
        cases hnext : d.addDays? interval with
        | none => exact .takenLast hd hin hnext
        | some next => exact .taken hd hin hnext (hlater hinterval hnext)
      · rw [if_neg fun h => hin ((Date.isIn_iff_mem hascending).1 h)]
        cases hnext : d.addDays? 1 with
        | none => exact .passedLast hd hin hnext
        | some next => exact .passed hd hin hnext (hlater (Int.le_refl 1) hnext)
    · rw [if_neg hd]
      exact .beyond (Date.not_le.1 hd)

/-! ### The days that are taken -/

/-- The earliest trading day from a day number on, unless it comes after the end. -/
def Comes (tradingDays : List Date) (stop : Date) (day : Int) (e : Date) : Prop :=
  IsLeast {t | t ∈ tradingDays ∧ day ≤ t.day} e ∧ e ≤ stop

theorem comes_self_iff {d e : Date} (hd : d ∈ tradingDays) :
    Comes tradingDays stop d.day e ↔ e = d ∧ d ≤ stop := by
  have hleast : IsLeast {t | t ∈ tradingDays ∧ d.day ≤ t.day} d :=
    ⟨⟨hd, Int.le_refl _⟩, fun _ ht => ht.2⟩
  constructor
  · rintro ⟨he, hstop⟩
    obtain rfl := Date.le_antisymm (he.2 hleast.1) (hleast.2 he.1)
    exact ⟨rfl, hstop⟩
  · rintro ⟨rfl, hstop⟩
    exact ⟨hleast, hstop⟩

theorem comes_succ_iff {d e : Date} (hd : d ∉ tradingDays) :
    Comes tradingDays stop (d.day + 1) e ↔ Comes tradingDays stop d.day e := by
  have hsame : {t | t ∈ tradingDays ∧ d.day + 1 ≤ t.day} =
      {t | t ∈ tradingDays ∧ d.day ≤ t.day} := by
    ext t
    refine and_congr_right fun ht => ⟨fun h => by omega, fun h => ?_⟩
    rcases Int.lt_or_eq_of_le h with hlt | heq
    · exact hlt
    · exact absurd (Date.day_injective heq ▸ ht) hd
  rw [Comes, Comes, hsame]

theorem not_comes_of_addDays? {d e : Date} {n : Int} (hn : 0 ≤ n) (h : d.addDays? n = none) :
    ¬ Comes tradingDays stop (d.day + n) e := by
  rintro ⟨⟨⟨_, hle⟩, _⟩, _⟩
  have hd := d.inRange
  have he := e.inRange
  rw [Date.addDays?, Date.ofDay?, dif_pos ⟨by omega, by omega⟩] at h
  cases h

namespace Ends

variable {d : Date} {days : List Date}

theorem head?_eq_some_iff (h : Ends tradingDays stop interval d days) {e : Date} :
    days.head? = some e ↔ Comes tradingDays stop d.day e := by
  induction h with
  | @beyond d hlt =>
    refine iff_of_false nofun ?_
    rintro ⟨⟨⟨_, hle⟩, _⟩, hstop⟩
    exact Date.not_lt.2 (Date.le_trans hle hstop) hlt
  | taken hle hd _ _ _ =>
    rw [comes_self_iff hd, and_iff_left hle, List.head?_cons, Option.some.injEq, eq_comm]
  | takenLast hle hd _ =>
    rw [comes_self_iff hd, and_iff_left hle, List.head?_cons, Option.some.injEq, eq_comm]
  | passed _ hd hnext _ ih => rw [ih, Date.addDays?_eq_some_iff.1 hnext, comes_succ_iff hd]
  | passedLast _ hd hnext =>
    rw [← comes_succ_iff hd]
    exact iff_of_false nofun (not_comes_of_addDays? (by decide) hnext)

theorem getElem?_succ_iff (hinterval : 1 ≤ interval) (h : Ends tradingDays stop interval d days)
    {i : Nat} {a e : Date} (ha : days[i]? = some a) :
    days[i + 1]? = some e ↔ Comes tradingDays stop (a.day + interval) e := by
  induction h generalizing i with
  | beyond => cases ha
  | taken _ _ hnext rest ih =>
    cases i with
    | zero =>
      obtain rfl := Option.some.inj ha
      rw [← Date.addDays?_eq_some_iff.1 hnext, ← rest.head?_eq_some_iff, List.getElem?_cons_succ,
        List.head?_eq_getElem?]
    | succ i =>
      rw [List.getElem?_cons_succ] at ha ⊢
      exact ih ha
  | takenLast _ _ hnext =>
    cases i with
    | zero =>
      obtain rfl := Option.some.inj ha
      exact iff_of_false nofun (not_comes_of_addDays? (by omega) hnext)
    | succ i => cases ha
  | passed _ _ _ _ ih => exact ih ha
  | passedLast => cases ha

end Ends

/-! ### The greedy choice -/

/-- Days that are chosen greedily from the first trading day on. -/
structure Greedy (tradingDays : List Date) (stop : Date) (interval : Int) (days : List Date) :
    Prop where
  /-- The first trading day is the first one, unless it comes after the end. -/
  first : days.head? = tradingDays.head?.filter (· ≤ stop)
  /-- Each next one is the earliest trading day at least an interval later, as long as there is one
  that does not come after the end. -/
  next : ∀ i d, days[i]? = some d → ∀ e,
    days[i + 1]? = some e ↔ Comes tradingDays stop (d.day + interval) e

/-- Nothing is left open by that. -/
theorem Greedy.unique {days days' : List Date} (h : Greedy tradingDays stop interval days)
    (h' : Greedy tradingDays stop interval days') : days = days' := by
  refine List.ext_getElem? fun i => ?_
  induction i with
  | zero => rw [← List.head?_eq_getElem?, ← List.head?_eq_getElem?, h.first, h'.first]
  | succ i ih =>
    cases hd : days[i]? with
    | none =>
      have hlength := List.getElem?_eq_none_iff.1 hd
      have hlength' := List.getElem?_eq_none_iff.1 (ih ▸ hd)
      rw [List.getElem?_eq_none (by omega), List.getElem?_eq_none (by omega)]
    | some d =>
      refine Option.ext fun e => ?_
      rw [h.next i d hd, h'.next i d (ih ▸ hd)]

theorem ends_select (hascending : tradingDays.Pairwise (· < ·)) (stop : Date) (interval : Int)
    {first : Date} (hfirst : tradingDays.head? = some first) :
    Ends tradingDays stop (max interval 1) first (select tradingDays stop interval) := by
  rw [select, hfirst]
  refine ends_walk hascending (Int.le_max_right interval 1) ?_
  rw [Date.daysBetween]
  omega

theorem greedy_select (hascending : tradingDays.Pairwise (· < ·)) (stop : Date) (interval : Int) :
    Greedy tradingDays stop (max interval 1) (select tradingDays stop interval) := by
  cases hfirst : tradingDays.head? with
  | none =>
    have hnone : select tradingDays stop interval = [] := by rw [select, hfirst]
    rw [hnone]
    exact ⟨by rw [hfirst]; rfl, fun i d hd => by cases hd⟩
  | some first =>
    have hends := ends_select hascending stop interval hfirst
    refine ⟨Option.ext fun e => ?_, fun i d hd e =>
      hends.getElem?_succ_iff (Int.le_max_right interval 1) hd⟩
    rw [hends.head?_eq_some_iff, comes_self_iff (List.mem_of_head? hfirst), hfirst,
      Option.filter_eq_some_iff, Option.some.injEq, decide_eq_true_iff, eq_comm (a := e)]
    refine and_congr_right ?_
    rintro rfl
    rfl

/-- **The rebalance days are the greedy choice.**  The walk from the first trading day comes to an
end by itself, and what it takes is the one list of days that begins with the first trading day and
goes on to the earliest trading day at least an interval later, until there is none up to the end.
An interval of less than a day counts as one day. -/
theorem select_eq_iff_greedy (hascending : tradingDays.Pairwise (· < ·)) (stop : Date)
    (interval : Int) :
    (∀ first, tradingDays.head? = some first →
      Ends tradingDays stop (max interval 1) first (select tradingDays stop interval)) ∧
    ∀ days, select tradingDays stop interval = days ↔
      Greedy tradingDays stop (max interval 1) days := by
  have hgreedy := greedy_select hascending stop interval
  refine ⟨fun first => ends_select hascending stop interval, fun days => ⟨?_, hgreedy.unique⟩⟩
  rintro rfl
  exact hgreedy

/-- Trading days of the last two weeks of the calendar. -/
def calendarEnd : List Date :=
  [⟨95745690, by omega⟩, ⟨95745693, by omega⟩, ⟨95745700, by omega⟩, .latest]

/-- Five days after the first of these days there is no trading, and five days after the second one
that is taken there is no calendar; the longest interval of 64 bits leaves it at once. -/
theorem select_eq_iff_greedy_calendarEnd : calendarEnd.Pairwise (· < ·) ∧
    Greedy calendarEnd .latest 5 [⟨95745690, by omega⟩, ⟨95745700, by omega⟩] ∧
    Greedy calendarEnd .latest 9223372036854775807 [⟨95745690, by omega⟩] := by
  have hascending : calendarEnd.Pairwise (· < ·) := by decide
  obtain ⟨-, hfive⟩ := select_eq_iff_greedy hascending .latest 5
  obtain ⟨-, hlongest⟩ := select_eq_iff_greedy hascending .latest 9223372036854775807
  exact ⟨hascending, (hfive _).1 (by decide +kernel), (hlongest _).1 (by decide +kernel)⟩

end FactorPortfolio.RebalanceDays
