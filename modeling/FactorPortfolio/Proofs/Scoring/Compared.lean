import FactorPortfolio.Proofs.Cache.Volatility
import FactorPortfolio.Proofs.Scoring.Batch
import Mathlib.Tactic.Common

/-!
# One job, scored twice

A job may be scored for two stores, or in two batches.  Suppose that the two runs differ in their
volatilities at most.  Then they come to the same if the volatilities that the job asks for are the
same (`Reading.run_congr`), and the converse holds as far as it can: runs that fail alike find the
same volatilities missing (`Market.isSome_eq_of_run`).

`ScoreResult.SameFor` says that a symbol comes out the same: its score, its failure or its absence.
-/

namespace FactorPortfolio

variable {α : Type}

namespace Market

variable {β : Type} {may : Question → Prop} {post : β → Prop} {m m' : Market α}
  {volatility volatility' : Symbol → Date → Date → Option α} {r : Reading α β} {symbol : Symbol}
  {start stop : Date}

theorem volatility_eq_none_of_run (hr : r.Within may post)
    (h : r.run (m.source volatility) = .error (.cacheMiss (.stdev symbol start stop true))) :
    volatility symbol start stop = none := by
  obtain ⟨q, _, hq⟩ := hr.exists_fault rfl h
  rcases answer_eq_error_iff.1 hq with ⟨_, _, _, _, he⟩ | ⟨_, _, _, _, hnone, he⟩
  · cases he
  · cases he
    exact hnone

theorem run_eq_error_of_volatility (hq : .stdev symbol start stop ∈ r.asked (m.source volatility))
    (h : volatility symbol start stop = none) :
    r.run (m.source volatility) = .error (.cacheMiss (.stdev symbol start stop true)) :=
  Reading.run_eq_error hq (answer_eq_error_iff.2 (.inr ⟨symbol, start, stop, rfl, h, rfl⟩))

/-- **Runs that fail alike find the same volatilities missing.** -/
theorem isSome_eq_of_run (hr : r.Within may post)
    (hother : ∀ q ∈ r.asked (m.source volatility),
      (∀ symbol start stop, q = .stdev symbol start stop →
        volatility symbol start stop = volatility' symbol start stop) →
      (m.source volatility).Agree (m'.source volatility') q)
    (hvalue : ∀ symbol start stop, .stdev symbol start stop ∈ r.asked (m.source volatility) →
      .stdev symbol start stop ∈ r.asked (m'.source volatility') →
      (volatility symbol start stop).isSome = (volatility' symbol start stop).isSome →
      volatility symbol start stop = volatility' symbol start stop)
    (h : ∀ e, e.isCacheMiss = true →
      (r.run (m.source volatility) = .error e ↔ r.run (m'.source volatility') = .error e))
    (hq : .stdev symbol start stop ∈ r.asked (m.source volatility)) :
    (volatility symbol start stop).isSome = (volatility' symbol start stop).isSome := by
  rcases Reading.agree_or_exists_difference (m.source volatility) (m'.source volatility') r with
    hall | ⟨q, hq, hq', hne⟩
  · have hagree := hall _ hq
    simp only [MetricSource.Agree, MetricSource.answer, source] at hagree
    cases hv : volatility symbol start stop <;> cases hv' : volatility' symbol start stop <;>
      simp_all
  · exfalso
    obtain ⟨symbol, start, stop, rfl, hdiff⟩ : ∃ symbol start stop, q = .stdev symbol start stop ∧
        volatility symbol start stop ≠ volatility' symbol start stop := by
      by_contra hnone
      push Not at hnone
      exact hne (hother q hq hnone)
    -- the run that misses the volatility fails for it, so the other one misses it as well
    cases hv : volatility symbol start stop with
    | none =>
      have hrun := (h _ rfl).1 (run_eq_error_of_volatility hq hv)
      exact hdiff (hv.trans (volatility_eq_none_of_run hr hrun).symm)
    | some x =>
      cases hv' : volatility' symbol start stop with
      | none =>
        have hrun := (h _ rfl).2 (run_eq_error_of_volatility hq' hv')
        exact hdiff ((volatility_eq_none_of_run hr hrun).trans hv'.symm)
      | some x' => exact hdiff (hvalue symbol start stop hq hq' (by rw [hv, hv']; rfl))

end Market

/-- A symbol comes out the same of two days: its score, its failure or its absence. -/
def ScoreResult.SameFor (symbol : Symbol) (r r' : ScoreResult α) : Prop :=
  r.scores.get? symbol = r'.scores.get? symbol ∧
    ∀ x, x.symbol = symbol → (x ∈ r.errors ↔ x ∈ r'.errors)

theorem ScoreResult.SameFor.refl (symbol : Symbol) (r : ScoreResult α) : r.SameFor symbol r :=
  ⟨rfl, fun _ _ => Iff.rfl⟩

namespace Scoring

variable [Scalar α] {formula : Formula α} {m m' : Market α}
  {volatility volatility' : Symbol → Date → Date → Option α} {batch batch' : List Job}
  {symbol : Symbol} {date : Date}

theorem symbol_of_asked {job : Job} {source : MetricSource α} {q : Question}
    (hq : q ∈ (formula.evaluate job.symbol job.date).asked source) : q.symbol = job.symbol :=
  (formula.within_evaluate job.symbol job.date (Expr.within_eval_symbol _)).asked hq

def AsksVolatility (m : Market α) (formula : Formula α) (batch : List Job) (job : Job)
    (start stop : Date) : Prop :=
  .stdev job.symbol start stop ∈
    (formula.evaluate job.symbol job.date).asked (marketSource m formula batch)

theorem resultOf_congr {source source' : MetricSource α}
    (h : ∀ job ∈ batch, job.date = date → (formula.evaluate job.symbol job.date).run source =
      (formula.evaluate job.symbol job.date).run source') :
    resultOf (outcomes source formula batch) date =
      resultOf (outcomes source' formula batch) date := by
  have hday : ofDay date (outcomes source formula batch) =
      ofDay date (outcomes source' formula batch) := by
    rw [ofDay, ofDay, outcomes, outcomes, List.filter_map, List.filter_map]
    apply List.map_congr_left
    intro job hjob
    obtain ⟨hmem, hdate⟩ := List.mem_filter.1 hjob
    rw [h job hmem (of_decide_eq_true hdate)]
  rw [resultOf, scoresOf, failuresOf, hday, resultOf, scoresOf, failuresOf]

theorem sameFor_of_run_eq {source source' : MetricSource α} (hjob : ⟨date, symbol⟩ ∈ batch)
    (hjob' : ⟨date, symbol⟩ ∈ batch') (h : (formula.evaluate symbol date).run source =
      (formula.evaluate symbol date).run source') :
    (resultOf (outcomes source formula batch) date).SameFor symbol
      (resultOf (outcomes source' formula batch') date) := by
  refine ⟨Option.ext fun x => ?_, fun x hx => ?_⟩
  · rw [get?_scores_resultOf outcomes_functional, get?_scores_resultOf outcomes_functional,
      mem_outcomes, mem_outcomes, h]
    simp only [hjob, hjob', true_and]
  · subst hx
    rw [mem_errors_resultOf, mem_errors_resultOf, mem_outcomes, mem_outcomes]
    apply and_congr_right
    intro hdate
    subst hdate
    rw [h]
    simp only [hjob, hjob', true_and]

theorem run_eq_error_iff_of_sameFor (hjob : ⟨date, symbol⟩ ∈ batch)
    (hjob' : ⟨date, symbol⟩ ∈ batch')
    (h : (resultOf (outcomes (m.source volatility) formula batch) date).SameFor symbol
      (resultOf (outcomes (m'.source volatility') formula batch') date))
    {e : EvalError α} (he : e.isCacheMiss = true) :
    (formula.evaluate symbol date).run (m.source volatility) = .error e ↔
      (formula.evaluate symbol date).run (m'.source volatility') = .error e := by
  have hlisted : ∀ (m : Market α) (volatility : Symbol → Date → Date → Option α)
      (batch : List Job), ⟨date, symbol⟩ ∈ batch →
      ((⟨symbol, date, e⟩ : ScoreError α) ∈
        (resultOf (outcomes (m.source volatility) formula batch) date).errors ↔
      (formula.evaluate symbol date).run (m.source volatility) = .error e) := by
    intro m volatility batch hjob
    rw [mem_errors_resultOf, mem_outcomes]
    constructor
    · rintro ⟨_, ⟨_, hrun⟩, _⟩
      exact hrun
    · intro hrun
      refine ⟨rfl, ⟨hjob, hrun⟩, ?_, run_market_ne_internal hrun⟩
      cases e <;> first | rfl | cases he
  rw [← hlisted m volatility batch hjob, ← hlisted m' volatility' batch' hjob']
  exact h.2 ⟨symbol, date, e⟩ rfl

def lastTwentyDays : Formula Float :=
  ⟨"stdev(nDaysAgo(20), currentDate)", .call .stdev [.call .nDaysAgo [.number 20], .currentDate]⟩

end Scoring

end FactorPortfolio
