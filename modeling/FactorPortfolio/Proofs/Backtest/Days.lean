import FactorPortfolio.Backtest.Run
import FactorPortfolio.Proofs.Target.Compute
import Mathlib.Tactic.Common

/-!
# What a backtest does day by day

A day either rebalances the portfolio to a target and records a sample, or it is skipped for want of
a target and leaves portfolio and ledger as they are: `DayStep`, with `dayStep_of_day`.  A run is
these steps over the rebalance days, from cash alone: `walked_of_run`.
-/

namespace FactorPortfolio.Backtest

variable {α : Type} [Scalar α]

/-- What one day does to a state whose portfolio has some value on it. -/
inductive DayStep (config : BacktestConfig α) (s : State α) (date : Date)
    (prices : Table Symbol α) (value : α) (result : ScoreResult α) : State α → Prop
  | rebalanced {target : Target α} {proposed kept : List (Trade α)} {ledger : ExcessLedger α}
      (computed : Target.Computed date result.scores prices config.numTickers value
        config.weighting target)
      (diff : Trade.diff s.portfolio target.portfolio prices = .ok proposed)
      (filtered : Trade.filterSmall config.minTradeQuantity s.ledger proposed = (kept, ledger)) :
      DayStep config s date prices value result
        ⟨target.portfolio, ledger, s.samples ++ [⟨date, target.portfolio, value, target.weights,
          target.scores, kept, prices⟩], s.skipped, s.scoreErrors + result.errors.length⟩
  | skipped {e : TargetError α}
      (failed : Target.compute date result.scores prices config.numTickers value
        config.weighting = .error e) :
      DayStep config s date prices value result
        ⟨s.portfolio, s.ledger, s.samples, s.skipped ++ [⟨date, e⟩],
          s.scoreErrors + result.errors.length⟩

/-- **A day rebalances or is skipped.** -/
theorem dayStep_of_day {store : PriceStore α} {symbols : List Symbol} {config : BacktestConfig α}
    {scores : DailyScores α} {s s' : State α} {date : Date}
    (h : day store symbols config scores s date = .ok s') : ∃ prices value result,
      store.pricesOn symbols date = .ok prices ∧
      holdingValue s.portfolio prices date = .ok value ∧ scores.get? date = some result ∧
      DayStep config s date prices value result s' := by
  obtain ⟨prices, hprices, h⟩ := Except.bind_eq_ok_iff.1 h
  obtain ⟨value, hvalue, h⟩ := Except.bind_eq_ok_iff.1 h
  split at h
  · cases h
  rename_i result hresult
  refine ⟨prices, value, result, Except.mapError_eq_ok_iff.1 hprices, hvalue, hresult, ?_⟩
  dsimp only at h
  split at h
  · rename_i target htarget
    have hcomputed := Target.computed_of_compute htarget
    obtain ⟨proposed, hdiff, h⟩ := Except.bind_eq_ok_iff.1 h
    obtain rfl := Except.pure_eq_ok_iff.1 h
    rw [hcomputed.date_eq]
    exact .rebalanced hcomputed (Except.mapError_eq_ok_iff.1 hdiff) rfl
  · rename_i e hfailed
    obtain rfl := Except.pure_eq_ok_iff.1 h
    exact .skipped hfailed

/-- The days of a run, and the state that the last one leaves behind. -/
structure Walked (store : PriceStore α) (fundamentals : Option (FundamentalsStore α))
    (formula : Formula α) (symbols : List Symbol) (config : BacktestConfig α) (cancelled : Bool)
    (report : BacktestReport α) (tradingDays : List Date) (scores : DailyScores α)
    (last : State α) : Prop where
  calendar : store.tradingDays config.start config.stop = .ok tradingDays
  rebalanceDays : report.rebalanceDays =
    RebalanceDays.select tradingDays config.stop config.interval
  scored : Scoring.score ⟨store, fundamentals, none⟩ formula report.rebalanceDays symbols
    cancelled = .ok scores
  walked : report.rebalanceDays.foldlM (day store symbols config scores)
    (.start config.startingCash) = .ok last
  budget : checkBudget last.skipped report.rebalanceDays.length = .ok ()
  samples : report.samples = last.samples
  skipped : report.skipped = last.skipped
  scoreErrors : report.scoreErrors = last.scoreErrors
  excess : report.excess = last.ledger

theorem walked_of_run {store : PriceStore α} {fundamentals : Option (FundamentalsStore α)}
    {formula : Formula α} {symbols : List Symbol} {config : BacktestConfig α} {cancelled : Bool}
    {report : BacktestReport α}
    (h : run store fundamentals formula symbols config cancelled = .ok report) :
    ∃ tradingDays scores last, Walked store fundamentals formula symbols config cancelled report
      tradingDays scores last := by
  rw [run] at h
  split at h
  · cases h
  obtain ⟨tradingDays, htradingDays, h⟩ := Except.bind_eq_ok_iff.1 h
  dsimp only at h
  split at h
  · cases h
  obtain ⟨scores, hscores, h⟩ := Except.bind_eq_ok_iff.1 h
  obtain ⟨last, hlast, h⟩ := Except.bind_eq_ok_iff.1 h
  obtain ⟨_, hbudget, h⟩ := Except.bind_eq_ok_iff.1 h
  obtain rfl := Except.pure_eq_ok_iff.1 h
  exact ⟨tradingDays, scores, last, Except.mapError_eq_ok_iff.1 htradingDays, rfl, hscores, hlast,
    hbudget, rfl, rfl, rfl, rfl⟩

end FactorPortfolio.Backtest
