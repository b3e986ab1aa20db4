import FactorPortfolio.Proofs.Except
import FactorPortfolio.Proofs.Sorting
import FactorPortfolio.Proofs.Table
import FactorPortfolio.Scoring
import Mathlib.Tactic.Common

/-!
# What is collected

The tally of a day is a table of the scores and a list of the failures that the outcomes of that
day bring (`scoresOf`, `failuresOf`), whatever arrives for other days in between.

* `day_foldl_add`: what a tally holds for a day after some outcomes have arrived.
* `collect_eq_ok_iff`: a batch is collected if nothing unforeseen was looked up and no outcome is
  missing, and then its days are those of the jobs.
* `exists_internal_iff`: a batch fails as a whole if and only if some look-up was unforeseen.
-/

namespace FactorPortfolio.Scoring

variable {α : Type}

/-- The failure that fails the batch, if the outcome is one. -/
def Outcome.isInternal (o : Outcome α) : Bool :=
  match o.2 with
  | .ok _ => false
  | .error e => e.isInternalFault

def Outcome.score? (o : Outcome α) : Option (Symbol × α) :=
  match o.2 with
  | .ok x => some (o.1.symbol, x)
  | .error _ => none

/-- The failure that an outcome brings, missing data and unforeseen look-ups apart. -/
def Outcome.failure? (o : Outcome α) : Option (ScoreError α) :=
  match o.2 with
  | .ok _ => none
  | .error e =>
    if e.isMissingData || e.isInternalFault then none else some ⟨o.1.symbol, o.1.date, e⟩

def ofDay (date : Date) (outcomes : List (Outcome α)) : List (Outcome α) :=
  outcomes.filter fun o => o.1.date = date

def scoresOf (outcomes : List (Outcome α)) (date : Date) : List (Symbol × α) :=
  (ofDay date outcomes).filterMap Outcome.score?

def failuresOf (outcomes : List (Outcome α)) (date : Date) : List (ScoreError α) :=
  (ofDay date outcomes).filterMap Outcome.failure?

def resultOf (outcomes : List (Outcome α)) (date : Date) : ScoreResult α :=
  ⟨Table.ofList (scoresOf outcomes date), sortErrors (failuresOf outcomes date)⟩

/-! ### The tally -/

theorem ofDay_singleton (o : Outcome α) (date : Date) :
    ofDay date [o] = if o.1.date = date then [o] else [] := by
  by_cases hd : o.1.date = date <;> simp [ofDay, hd]

theorem ofDay_cons (o : Outcome α) (outcomes : List (Outcome α)) (date : Date) :
    ofDay date (o :: outcomes) = ofDay date [o] ++ ofDay date outcomes := by
  rw [ofDay, ofDay, ofDay, ← List.filter_append, List.singleton_append]

namespace Tally

theorem day_add (t : Tally α) (o : Outcome α) (date : Date) :
    (t.add o).day date =
      ⟨(scoresOf [o] date).foldl (fun s e => s.insert e.1 e.2) (t.day date).scores,
        (t.day date).errors ++ failuresOf [o] date⟩ := by
  rw [scoresOf, failuresOf, ofDay_singleton]
  obtain ⟨job, outcome⟩ := o
  by_cases hd : job.date = date
  · subst hd
    cases outcome with
    | ok x => simp [add, addScore, day, List.filterMap_cons, Outcome.score?, Outcome.failure?]
    | error e =>
      cases hm : e.isMissingData <;> cases hi : e.isInternalFault <;>
        simp [add, addError, day, List.filterMap_cons, Outcome.score?, Outcome.failure?, hm, hi]
  · have hne : date ≠ job.date := Ne.symm hd
    cases outcome with
    | ok x => simp [add, addScore, day, hd, Table.get?_insert_of_ne _ hne]
    | error e =>
      cases hm : e.isMissingData <;> cases hi : e.isInternalFault <;>
        simp [add, addError, day, hd, hm, hi, Table.get?_insert_of_ne _ hne]

theorem scoresOf_cons (o : Outcome α) (outcomes : List (Outcome α)) (date : Date) :
    scoresOf (o :: outcomes) date = scoresOf [o] date ++ scoresOf outcomes date := by
  rw [scoresOf, ofDay_cons, List.filterMap_append, scoresOf, scoresOf]

theorem failuresOf_cons (o : Outcome α) (outcomes : List (Outcome α)) (date : Date) :
    failuresOf (o :: outcomes) date = failuresOf [o] date ++ failuresOf outcomes date := by
  rw [failuresOf, ofDay_cons, List.filterMap_append, failuresOf, failuresOf]

/-- **A day gathers the scores and failures of its own outcomes**, in the order of arrival. -/
theorem day_foldl_add (t : Tally α) (outcomes : List (Outcome α)) (date : Date) :
    (outcomes.foldl add t).day date =
      ⟨(scoresOf outcomes date).foldl (fun s e => s.insert e.1 e.2) (t.day date).scores,
        (t.day date).errors ++ failuresOf outcomes date⟩ := by
  induction outcomes generalizing t with
  | nil => simp [scoresOf, failuresOf, ofDay]
  | cons o outcomes ih =>
    rw [List.foldl_cons, ih, day_add, scoresOf_cons o outcomes, failuresOf_cons o outcomes,
      List.foldl_append, List.append_assoc]

theorem contains_add (t : Tally α) (o : Outcome α) (h : t.days.contains o.1.date = true)
    (date : Date) : (t.add o).days.contains date = t.days.contains date := by
  obtain ⟨job, outcome⟩ := o
  have hinsert : ∀ r : ScoreResult α,
      (t.days.insert job.date r).contains date = t.days.contains date := by
    intro r
    by_cases hd : date = job.date
    · subst hd
      rw [h]
      simp [Table.contains]
    · rw [Table.contains, Table.get?_insert_of_ne _ hd, Table.contains]
  cases outcome with
  | ok x => exact hinsert _
  | error e =>
    cases hm : e.isMissingData <;> cases hi : e.isInternalFault <;>
      simp [add, addError, hm, hi, hinsert]

theorem contains_foldl_add (t : Tally α) {outcomes : List (Outcome α)}
    (h : ∀ o ∈ outcomes, t.days.contains o.1.date = true) (date : Date) :
    (outcomes.foldl add t).days.contains date = t.days.contains date := by
  induction outcomes generalizing t with
  | nil => rfl
  | cons o outcomes ih =>
    obtain ⟨ho, houtcomes⟩ := List.forall_mem_cons.1 h
    rw [List.foldl_cons, ih, contains_add t o ho]
    intro o' ho'
    rw [contains_add t o ho]
    exact houtcomes o' ho'

theorem isMissingData_of_isInternalFault {e : EvalError α} (h : e.isInternalFault = true) :
    e.isMissingData = false := by
  cases e <;> first | rfl | cases h

theorem fault_add (t : Tally α) (o : Outcome α) :
    (t.add o).fault = none ↔ t.fault = none ∧ o.isInternal = false := by
  obtain ⟨job, outcome⟩ := o
  cases outcome with
  | ok x => simp [add, addScore, Outcome.isInternal]
  | error e =>
    cases hi : e.isInternalFault with
    | true => simp [add, Outcome.isInternal, hi, isMissingData_of_isInternalFault hi]
    | false => cases hm : e.isMissingData <;> simp [add, addError, Outcome.isInternal, hi, hm]

theorem fault_foldl_add (t : Tally α) (outcomes : List (Outcome α)) :
    (outcomes.foldl add t).fault = none ↔
      t.fault = none ∧ ∀ o ∈ outcomes, o.isInternal = false := by
  induction outcomes generalizing t with
  | nil => simp
  | cons o outcomes ih => rw [List.foldl_cons, ih, fault_add, List.forall_mem_cons, and_assoc]

end Tally

/-! ### Reading a day -/

section

variable {arrived : List (Outcome α)} {date : Date}

theorem mem_scoresOf {e : Symbol × α} :
    e ∈ scoresOf arrived date ↔ (⟨date, e.1⟩, .ok e.2) ∈ arrived := by
  simp only [scoresOf, ofDay, List.mem_filterMap, List.mem_filter, decide_eq_true_eq]
  constructor
  · rintro ⟨⟨⟨d, symbol⟩, outcome⟩, ⟨ho, rfl⟩, hscore⟩
    cases outcome with
    | ok x =>
      cases hscore
      exact ho
    | error e => cases hscore
  · intro he
    exact ⟨_, ⟨he, rfl⟩, rfl⟩

theorem get?_scores_resultOf (h : ∀ o ∈ arrived, ∀ o' ∈ arrived, o.1 = o'.1 → o.2 = o'.2)
    {symbol : Symbol} {x : α} : (resultOf arrived date).scores.get? symbol = some x ↔
      (⟨date, symbol⟩, .ok x) ∈ arrived := by
  refine Table.get?_ofList_iff (fun _ _ => mem_scoresOf) ?_ symbol x
  intro symbol x x' hx hx'
  exact Except.ok.inj (h _ hx _ hx' rfl)

theorem mem_errors_resultOf {x : ScoreError α} : x ∈ (resultOf arrived date).errors ↔
    x.date = date ∧ (⟨x.date, x.symbol⟩, .error x.error) ∈ arrived ∧
      x.error.isMissingData = false ∧ x.error.isInternalFault = false := by
  rw [resultOf, sortErrors, (Sorting.sort_perm _ _).mem_iff]
  simp only [failuresOf, ofDay, List.mem_filterMap, List.mem_filter, decide_eq_true_eq]
  constructor
  · rintro ⟨⟨⟨d, symbol⟩, outcome⟩, ⟨ho, rfl⟩, hfailure⟩
    cases outcome with
    | ok x => cases hfailure
    | error e =>
      simp only [Outcome.failure?] at hfailure
      split at hfailure
      · cases hfailure
      · rename_i hkind
        cases hfailure
        exact ⟨rfl, ho, by simpa using hkind⟩
  · rintro ⟨rfl, ho, hmissing, hinternal⟩
    refine ⟨_, ⟨ho, rfl⟩, ?_⟩
    simp [Outcome.failure?, hmissing, hinternal]

theorem symbol_of_failure? {o : Outcome α} {x : ScoreError α} (h : o.failure? = some x) :
    x.symbol = o.1.symbol := by
  obtain ⟨job, outcome⟩ := o
  cases outcome with
  | ok x => cases h
  | error e =>
    simp only [Outcome.failure?] at h
    split at h
    · cases h
    · cases h
      rfl

theorem errors_resultOf_strict (h : arrived.Pairwise fun o o' => o.1 ≠ o'.1) (date : Date) :
    (resultOf arrived date).errors.Pairwise fun a b => compare a.symbol b.symbol = .lt := by
  have hdistinct : (failuresOf arrived date).Pairwise fun a b => a.symbol ≠ b.symbol := by
    rw [failuresOf, List.pairwise_filterMap]
    refine (h.filter _).imp_of_mem fun {o o'} ho ho' hne x hx x' hx' heq => hne ?_
    have hd := of_decide_eq_true (List.mem_filter.1 ho).2
    have hd' := of_decide_eq_true (List.mem_filter.1 ho').2
    rw [symbol_of_failure? hx, symbol_of_failure? hx'] at heq
    obtain ⟨⟨d, s⟩, _⟩ := o
    obtain ⟨⟨d', s'⟩, _⟩ := o'
    simp_all
  exact Sorting.sort_pairwise_key_lt ScoreError.symbol hdistinct

end

/-! ### The batch -/

section

variable {jobs : List Job} {arrived : List (Outcome α)}

theorem get?_start (jobs : List Job) (date : Date) : (Tally.start jobs : Tally α).days.get? date =
    if date ∈ jobs.map Job.date then some ⟨∅, []⟩ else none := by
  apply Option.ext
  intro r
  rw [Tally.start, Table.get?_ofList]
  · by_cases h : date ∈ jobs.map Job.date
    · rw [if_pos h]
      simp only [List.mem_map, Prod.mk.injEq] at h ⊢
      grind
    · rw [if_neg h]
      simp only [List.mem_map, Prod.mk.injEq] at h ⊢
      grind
  · intro e he e' he' _
    obtain ⟨_, _, rfl⟩ := List.mem_map.1 he
    obtain ⟨_, _, rfl⟩ := List.mem_map.1 he'
    rfl

theorem day_start (jobs : List Job) (date : Date) :
    (Tally.start jobs : Tally α).day date = ⟨∅, []⟩ := by
  rw [Tally.day, get?_start]
  split <;> rfl

theorem get?_tally (h : ∀ o ∈ arrived, o.1 ∈ jobs) (date : Date) :
    (arrived.foldl Tally.add (.start jobs)).days.get? date =
      if date ∈ jobs.map Job.date then
        some ⟨Table.ofList (scoresOf arrived date), failuresOf arrived date⟩
      else none := by
  have hday := Tally.day_foldl_add (.start jobs) arrived date
  have hstarted : ∀ o ∈ arrived, (Tally.start jobs : Tally α).days.contains o.1.date = true := by
    intro o ho
    rw [Table.contains, get?_start, if_pos (List.mem_map_of_mem (h o ho))]
    rfl
  have hcontains := Tally.contains_foldl_add (.start jobs) hstarted date
  rw [day_start, List.nil_append, Tally.day] at hday
  rw [Table.contains, Table.contains, get?_start] at hcontains
  by_cases hmem : date ∈ jobs.map Job.date
  · rw [if_pos hmem] at hcontains ⊢
    obtain ⟨r, hr⟩ := Option.isSome_iff_exists.1 hcontains
    rw [hr] at hday ⊢
    exact congrArg some hday
  · rw [if_neg hmem] at hcontains ⊢
    exact Option.isSome_eq_false_iff.1 hcontains |> Option.isNone_iff_eq_none.1

/-- A batch is collected when every look-up was foreseen and every outcome has arrived. -/
theorem collect_eq_ok_iff {out : DailyScores α} (h : ∀ o ∈ arrived, o.1 ∈ jobs) :
    collect jobs arrived = .ok out ↔ (∀ o ∈ arrived, o.isInternal = false) ∧
      jobs.length ≤ arrived.length ∧ ∀ date, out.get? date =
        if date ∈ jobs.map Job.date then some (resultOf arrived date) else none := by
  have hfault := Tally.fault_foldl_add (.start jobs) arrived
  have hget : ∀ date, Table.get? ((arrived.foldl Tally.add (.start jobs)).days.map
      fun _ day => (⟨day.scores, sortErrors day.errors⟩ : ScoreResult α)) date =
      if date ∈ jobs.map Job.date then some (resultOf arrived date) else none := by
    intro date
    rw [Table.get?_map, get?_tally h]
    split <;> rfl
  rw [collect]
  cases hf : (arrived.foldl Tally.add (.start jobs)).fault with
  | some e =>
    refine ⟨nofun, fun ⟨hi, _⟩ => ?_⟩
    rw [hfault.2 ⟨rfl, hi⟩] at hf
    cases hf
  | none =>
    have hi := (hfault.1 hf).2
    by_cases hlength : arrived.length < jobs.length
    · simp only [hlength, if_true]
      exact ⟨nofun, fun ⟨_, hle, _⟩ => by omega⟩
    · simp only [hlength, if_false, Except.ok.injEq]
      constructor
      · rintro rfl
        exact ⟨hi, Nat.not_lt.1 hlength, hget⟩
      · rintro ⟨_, _, hout⟩
        exact Table.ext_get? fun date => (hget date).trans (hout date).symm

theorem exists_collect_eq_ok (h : ∀ o ∈ arrived, o.isInternal = false)
    (hlength : jobs.length ≤ arrived.length) : ∃ out, collect jobs arrived = .ok out := by
  rw [collect, (Tally.fault_foldl_add (.start jobs) arrived).2 ⟨rfl, h⟩]
  simp only [Nat.not_lt.2 hlength, if_false]
  exact ⟨_, rfl⟩

/-- **A batch fails as a whole if and only if some look-up was unforeseen.** -/
theorem exists_internal_iff : (∃ fault, collect jobs arrived = .error (.internal fault)) ↔
    ∃ o ∈ arrived, o.isInternal = true := by
  have hfault := Tally.fault_foldl_add (.start jobs) arrived
  rw [collect]
  cases hf : (arrived.foldl Tally.add (.start jobs)).fault with
  | some e =>
    refine ⟨fun _ => ?_, fun _ => ⟨_, rfl⟩⟩
    by_contra hnone
    rw [hfault.2 ⟨rfl, fun o ho => Bool.eq_false_iff.2 fun hi => hnone ⟨o, ho, hi⟩⟩] at hf
    cases hf
  | none =>
    constructor
    · rintro ⟨fault, heq⟩
      simp only at heq
      split at heq <;> cases heq
    · rintro ⟨o, ho, hi⟩
      rw [(hfault.1 hf).2 o ho] at hi
      cases hi

end

end FactorPortfolio.Scoring
