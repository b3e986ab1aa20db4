import FactorPortfolio.Metrics
import FactorPortfolio.Backtest.Run

/-! # The summary of a backtest -/

namespace FactorPortfolio

variable {α : Type} [Scalar α]

def percentText (places : Nat) (x : α) : String := Scalar.fixed places (x * 100.0) ++ "%"

/-- The lines that sum up a backtest, with one more for each skipped day. -/
def BacktestReport.summary (r : BacktestReport α) : List String :=
  let m := Metrics.ofSamples r.samples
  let value := match r.finalValue with
    | some v => ["Final Value:      " ++ Scalar.fixed 2 v]
    | none => []
  ["", "=== Backtest Results ===",
    "Rebalance Days:   " ++ Decimal.natText r.rebalanceDays.length,
    "Rebalanced:       " ++ Decimal.natText r.samples.length,
    "Skipped:          " ++ Decimal.natText r.skipped.length,
    "Score Errors:     " ++ Decimal.natText r.scoreErrors] ++
  value ++
  ["Total Return:     " ++ percentText 2 m.totalReturn,
    "Annualized:       " ++ percentText 2 m.annualizedReturn,
    "Volatility:       " ++ percentText 2 m.annualizedStdev,
    "Sharpe Ratio:     " ++ Scalar.fixed 2 m.sharpeRatio,
    "Max Drawdown:     -" ++ percentText 1 m.maxDrawdown] ++
  r.skipped.map fun day => "  skipped " ++ day.message

end FactorPortfolio
