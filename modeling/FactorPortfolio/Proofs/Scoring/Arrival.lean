import FactorPortfolio.Proofs.Formula.Simulation
import FactorPortfolio.Proofs.Scoring.Batch
import Mathlib.Tactic.Common

/-!
# The order of arrival

What is collected depends on which outcomes arrive and not on their order: scores are kept by
symbol, and failures are sorted by symbol, where those of one symbol on one day are all alike
(`resultOf_perm`, `collect_perm`).  A pair of a day and a symbol is scored, listed once for each of
its jobs, or left out for want of data: `Classed`, with `classed`.  One internal fault among the
outcomes fails the batch, whatever else arrives: `collect_of_isInternal`.
-/

namespace FactorPortfolio.Scoring

section

variable {α : Type}

/-! ### The fault that is reported -/

/-- The fault of the engine itself that an outcome brings. -/
def Outcome.fault? (o : Outcome α) : Option (EvalError α) :=
  match o.2 with
  | .ok _ => none
  | .error e => if e.isInternalFault then some e else none

theorem Outcome.fault?_eq_some_iff {o : Outcome α} {e : EvalError α} :
    o.fault? = some e ↔ o.2 = .error e ∧ e.isInternalFault = true := by
  obtain ⟨job, outcome⟩ := o
  cases outcome with
  | ok x => simp [fault?]
  | error e' =>
    simp only [fault?, Option.ite_none_right_eq_some, Option.some.injEq, Except.error.injEq]
    constructor
    · rintro ⟨hi, rfl⟩
      exact ⟨rfl, hi⟩
    · rintro ⟨rfl, hi⟩
      exact ⟨hi, rfl⟩

theorem Outcome.isInternal_iff_fault? (o : Outcome α) :
    o.isInternal = true ↔ ∃ e, o.fault? = some e := by
  obtain ⟨job, outcome⟩ := o
  cases outcome with
  | ok x => simp [isInternal, fault?]
  | error e => simp [isInternal, fault?]

theorem Tally.fault_add_eq (t : Tally α) (o : Outcome α) :
    (t.add o).fault = t.fault.or o.fault? := by
  obtain ⟨job, outcome⟩ := o
  cases outcome with
  | ok x => simp [add, addScore, Outcome.fault?]
  | error e =>
    cases hi : e.isInternalFault with
    | true => simp [add, Outcome.fault?, hi, isMissingData_of_isInternalFault hi]
    | false => cases hm : e.isMissingData <;> simp [add, addError, Outcome.fault?, hi, hm]

theorem Tally.fault_foldl_add_eq (t : Tally α) (arrived : List (Outcome α)) :
    (arrived.foldl add t).fault = t.fault.or (arrived.findSome? Outcome.fault?) := by
  induction arrived generalizing t with
  | nil => simp
  | cons o arrived ih =>
    rw [List.foldl_cons, ih, fault_add_eq, List.findSome?_cons, Option.or_assoc]
    cases o.fault? <;> rfl

/-- **One internal fault fails the batch**, in whatever order outcomes arrive and however few. -/
theorem collect_of_isInternal (jobs : List Job) {arrived : List (Outcome α)} {o : Outcome α}
    (ho : o ∈ arrived) (hi : o.isInternal = true) :
    ∃ o' ∈ arrived, ∃ e, o'.2 = .error e ∧ e.isInternalFault = true ∧
      collect jobs arrived = .error (.internal (.unforeseenLookup e)) := by
  have hfault := Tally.fault_foldl_add_eq (.start jobs) arrived
  rw [Tally.start, Option.none_or] at hfault
  cases hf : arrived.findSome? Outcome.fault? with
  | none =>
    obtain ⟨e, he⟩ := o.isInternal_iff_fault?.1 hi
    rw [List.findSome?_eq_none_iff.1 hf o ho] at he
    cases he
  | some e =>
    obtain ⟨o', ho', he⟩ := List.exists_of_findSome?_eq_some hf
    obtain ⟨he, hinternal⟩ := Outcome.fault?_eq_some_iff.1 he
    refine ⟨o', ho', e, he, hinternal, ?_⟩
    rw [collect, Tally.start, hfault, hf]

/-! ### What does not depend on the order -/

variable {arrived arrived' : List (Outcome α)} {date : Date}

theorem sortErrors_perm (errors : List (ScoreError α)) : (sortErrors errors).Perm errors :=
  Sorting.sort_perm _ _

/-- Failures of one symbol on one day are alike, so that they have one order by symbol. -/
theorem sortErrors_failuresOf_perm (h : arrived.Perm arrived')
    (hsame : ∀ o ∈ arrived, ∀ o' ∈ arrived, o.1 = o'.1 → o.2 = o'.2) (date : Date) :
    sortErrors (failuresOf arrived date) = sortErrors (failuresOf arrived' date) := by
  have hperm : (failuresOf arrived date).Perm (failuresOf arrived' date) :=
    (h.filter _).filterMap _
  have hsorted : ∀ errors : List (ScoreError α), (sortErrors errors).Pairwise fun a b =>
      (compare a.symbol b.symbol).isLE = true := Sorting.sort_pairwise_key ScoreError.symbol
  refine List.Perm.eq_of_pairwise ?_ (hsorted _) (hsorted _)
    ((sortErrors_perm _).trans (hperm.trans (sortErrors_perm _).symm))
  intro a b ha hb hab hba
  have hsymbol : a.symbol = b.symbol :=
    Std.LawfulEqOrd.eq_of_compare (Std.OrientedCmp.isLE_antisymm hab hba)
  obtain ⟨hdate, ha, _⟩ := mem_errors_resultOf.1 ha
  obtain ⟨hdate', hb, _⟩ := mem_errors_resultOf.1 hb
  have herror := hsame _ ha _ (h.mem_iff.2 hb) (by simp [hdate, hdate', hsymbol])
  obtain ⟨s, d, e⟩ := a
  obtain ⟨s', d', e'⟩ := b
  simp_all

/-- **A day is the same in whatever order its outcomes arrive.** -/
theorem resultOf_perm (h : arrived.Perm arrived')
    (hsame : ∀ o ∈ arrived, ∀ o' ∈ arrived, o.1 = o'.1 → o.2 = o'.2) (date : Date) :
    resultOf arrived date = resultOf arrived' date := by
  have hsame' : ∀ o ∈ arrived', ∀ o' ∈ arrived', o.1 = o'.1 → o.2 = o'.2 :=
    fun o ho o' ho' => hsame o (h.mem_iff.2 ho) o' (h.mem_iff.2 ho')
  have hscores : Table.ofList (scoresOf arrived date) = Table.ofList (scoresOf arrived' date) := by
    refine Table.ext_get? fun symbol => Option.ext fun x => ?_
    show (resultOf arrived date).scores.get? symbol = some x ↔
      (resultOf arrived' date).scores.get? symbol = some x
    rw [get?_scores_resultOf hsame, get?_scores_resultOf hsame', h.mem_iff]
  rw [resultOf, resultOf, hscores, sortErrors_failuresOf_perm h hsame date]

/-- **A batch is the same in whatever order its outcomes arrive.** -/
theorem collect_perm {jobs : List Job} {out : DailyScores α} (h : arrived.Perm arrived')
    (hsame : ∀ o ∈ arrived, ∀ o' ∈ arrived, o.1 = o'.1 → o.2 = o'.2)
    (hjobs : ∀ o ∈ arrived, o.1 ∈ jobs) (hout : collect jobs arrived = .ok out) :
    collect jobs arrived' = .ok out := by
  obtain ⟨hinternal, hlength, hdays⟩ := (collect_eq_ok_iff hjobs).1 hout
  refine (collect_eq_ok_iff fun o ho => hjobs o (h.mem_iff.2 ho)).2
    ⟨fun o ho => hinternal o (h.mem_iff.2 ho), by rwa [← h.length_eq], fun date => ?_⟩
  rw [hdays, resultOf_perm h hsame]

end

/-! ### Scored, listed or left out -/

section

variable {α : Type} [Scalar α] {source : MetricSource α} {formula : Formula α} {batch : List Job}

theorem isFinite_of_run_evaluate {job : Job} {x : α}
    (h : (formula.evaluate job.symbol job.date).run source = .ok x) : Scalar.isFinite x = true := by
  rw [Formula.run_evaluate] at h
  obtain ⟨y, _, h⟩ := Except.bind_eq_ok_iff.1 h
  split at h
  · cases h
    assumption
  · cases h

/-- What a job leaves on the list of its day. -/
def failureOf (source : MetricSource α) (formula : Formula α) (job : Job) :
    Option (ScoreError α) :=
  Outcome.failure? (job, (formula.evaluate job.symbol job.date).run source)

theorem symbol_of_failureOf {job : Job} {x : ScoreError α}
    (h : failureOf source formula job = some x) : x.symbol = job.symbol :=
  symbol_of_failure? h

theorem failuresOf_outcomes (date : Date) :
    failuresOf (outcomes source formula batch) date =
      (batch.filter fun job => job.date = date).filterMap (failureOf source formula) := by
  rw [failuresOf, ofDay, outcomes, List.filter_map, List.filterMap_map]
  rfl

theorem filter_failuresOf_outcomes (job : Job) :
    (failuresOf (outcomes source formula batch) job.date).filter
        (fun x => x.symbol = job.symbol) =
      (List.replicate (batch.count job) job).filterMap (failureOf source formula) := by
  rw [failuresOf_outcomes, ← List.filter_eq, List.filter_filterMap, List.filterMap_filter,
    List.filterMap_filter]
  refine List.filterMap_congr fun job' _ => ?_
  have hjob : job' = job ↔ job'.date = job.date ∧ job'.symbol = job.symbol := by
    obtain ⟨d, s⟩ := job
    obtain ⟨d', s'⟩ := job'
    simp
  cases hfailure : failureOf source formula job' with
  | none => simp
  | some x =>
    rw [← symbol_of_failureOf hfailure] at hjob
    by_cases hdate : job'.date = job.date <;> by_cases hsymbol : x.symbol = job.symbol <;>
      simp [hjob, hdate, hsymbol]

/-- How a job stands in the result of its day. -/
inductive Classed (source : MetricSource α) (formula : Formula α) (batch : List Job)
    (r : ScoreResult α) (job : Job) : Prop
  | scored {x : α} (evaluated : (formula.evaluate job.symbol job.date).run source = .ok x)
      (finite : Scalar.isFinite x = true) (score : r.scores.get? job.symbol = some x)
      (errors : r.errors.filter (fun y => y.symbol = job.symbol) = [])
  | listed {e : EvalError α}
      (evaluated : (formula.evaluate job.symbol job.date).run source = .error e)
      (kind : e.isMissingData = false) (score : r.scores.get? job.symbol = none)
      (errors : r.errors.filter (fun y => y.symbol = job.symbol) =
        List.replicate (batch.count job) ⟨job.symbol, job.date, e⟩)
  | leftOut {e : EvalError α}
      (evaluated : (formula.evaluate job.symbol job.date).run source = .error e)
      (kind : e.isMissingData = true) (score : r.scores.get? job.symbol = none)
      (errors : r.errors.filter (fun y => y.symbol = job.symbol) = [])

theorem filter_errors_resultOf (source : MetricSource α) (formula : Formula α) (batch : List Job)
    (job : Job) :
    (resultOf (outcomes source formula batch) job.date).errors.filter
        (fun x => x.symbol = job.symbol) =
      (List.replicate (batch.count job) job).filterMap (failureOf source formula) := by
  have hperm := (sortErrors_perm (failuresOf (outcomes source formula batch) job.date)).filter
    fun x => x.symbol = job.symbol
  rw [filter_failuresOf_outcomes] at hperm
  cases hfailure : failureOf source formula job with
  | none =>
    rw [List.filterMap_replicate_of_none hfailure] at hperm ⊢
    exact List.perm_nil.1 hperm
  | some x =>
    rw [List.filterMap_replicate_of_some hfailure] at hperm ⊢
    exact List.perm_replicate.1 hperm

theorem get?_scores_outcomes (source : MetricSource α) (formula : Formula α) (batch : List Job)
    (job : Job) (x : α) :
    (resultOf (outcomes source formula batch) job.date).scores.get? job.symbol = some x ↔
      job ∈ batch ∧ (formula.evaluate job.symbol job.date).run source = .ok x := by
  rw [get?_scores_resultOf outcomes_functional, mem_outcomes]

/-- **Every pair that is asked for is scored, listed or left out.** -/
theorem classed (hinternal : ∀ o ∈ outcomes source formula batch, o.isInternal = false) {job : Job}
    (hjob : job ∈ batch) :
    Classed source formula batch (resultOf (outcomes source formula batch) job.date) job := by
  have herrors := filter_errors_resultOf source formula batch job
  have hscores := get?_scores_outcomes source formula batch job
  cases hrun : (formula.evaluate job.symbol job.date).run source with
  | ok x =>
    rw [List.filterMap_replicate_of_none (by rw [failureOf, hrun]; rfl)] at herrors
    exact .scored hrun (isFinite_of_run_evaluate hrun) ((hscores x).2 ⟨hjob, hrun⟩) herrors
  | error e =>
    have hnone : (resultOf (outcomes source formula batch) job.date).scores.get? job.symbol =
        none := by
      rw [Option.eq_none_iff_forall_ne_some]
      intro x hx
      obtain ⟨_, hx⟩ := (hscores x).1 hx
      rw [hrun] at hx
      cases hx
    have hi : e.isInternalFault = false :=
      hinternal (job, .error e) (mem_outcomes.2 ⟨hjob, hrun⟩)
    cases hkind : e.isMissingData with
    | true =>
      rw [List.filterMap_replicate_of_none (by simp [failureOf, Outcome.failure?, hrun, hkind])]
        at herrors
      exact .leftOut hrun hkind hnone herrors
    | false =>
      rw [List.filterMap_replicate_of_some
        (by simp [failureOf, Outcome.failure?, hrun, hkind, hi]; rfl)] at herrors
      exact .listed hrun hkind hnone herrors

theorem unasked {job : Job} (hjob : job ∉ batch) :
    (resultOf (outcomes source formula batch) job.date).scores.get? job.symbol = none ∧
      (resultOf (outcomes source formula batch) job.date).errors.filter
        (fun x => x.symbol = job.symbol) = [] := by
  constructor
  · rw [Option.eq_none_iff_forall_ne_some]
    intro x hx
    exact hjob ((get?_scores_outcomes source formula batch job x).1 hx).1
  · rw [filter_errors_resultOf, List.count_eq_zero_of_not_mem hjob]
    rfl

namespace Classed

variable {r : ScoreResult α} {job : Job}

theorem score_eq_none_or (h : Classed source formula batch r job) :
    r.scores.get? job.symbol = none ∨ r.errors.filter (fun x => x.symbol = job.symbol) = [] := by
  cases h with
  | scored evaluated finite score errors => exact .inr errors
  | listed evaluated kind score errors => exact .inl score
  | leftOut evaluated kind score errors => exact .inl score

/-- **A pair has neither exactly if its data is missing.** -/
theorem neither_iff (h : Classed source formula batch r job) (hjob : job ∈ batch) :
    (r.scores.get? job.symbol = none ∧ r.errors.filter (fun x => x.symbol = job.symbol) = []) ↔
      ∃ e, (formula.evaluate job.symbol job.date).run source = .error e ∧
        e.isMissingData = true := by
  cases h with
  | scored evaluated finite score errors => simp [evaluated, score]
  | listed evaluated kind score errors =>
    have hcount := List.count_pos_iff.2 hjob
    simp [evaluated, kind, errors]
    omega
  | leftOut evaluated kind score errors => simp [evaluated, kind, score, errors]

end Classed

end

end FactorPortfolio.Scoring
