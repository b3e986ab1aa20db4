import FactorPortfolio.Backtest.Days
import FactorPortfolio.Backtest.Snapshot
import FactorPortfolio.Scoring

/-! # Backtests

The scores of all rebalance days are computed first. Then the days are walked in order, each from
the portfolio and the excess ledger that the day before left behind. A day without a target is
skipped and changes neither; too many of them fail the backtest.
-/

namespace FactorPortfolio

structure BacktestConfig (α : Type) where
  start : Date
  stop : Date
  /-- Days from one rebalance to the next. -/
  interval : Int
  startingCash : α
  numTickers : Nat
  minTradeQuantity : α
  weighting : WeightingPolicy α
  workers : Nat

structure BacktestReport (α : Type) where
  rebalanceDays : List Date
  samples : List (Sample α)
  snapshots : Table Date (Snapshot α)
  skipped : List (SkippedDay α)
  /-- How many evaluations failed, over all days. -/
  scoreErrors : Nat
  excess : ExcessLedger α

namespace Backtest

variable {α : Type} [Scalar α]

def defaultInterval : Int := 7

def defaultStartingCash : α := 10000.0

def defaultNumTickers : Nat := 3

def defaultMinTradeQuantity : α := 0.0001

def defaultWorkers : Nat := 10

def defaultIntensity : α := 0.999

/-- The share of skipped days at which a backtest fails. -/
def errorBudget : α := 0.1

/-- How many skipped days a failure quotes. -/
def quotedErrors : Nat := 3

/-- What one day leaves behind for the next, and what has been recorded. -/
structure State (α : Type) where
  portfolio : Portfolio α
  ledger : ExcessLedger α
  samples : List (Sample α)
  skipped : List (SkippedDay α)
  scoreErrors : Nat

def State.start (cash : α) : State α := ⟨.ofCash cash, .empty, [], [], 0⟩

/-- What a portfolio is worth on a day; every holding has to have a price. -/
def holdingValue (p : Portfolio α) (prices : Table Symbol α) (date : Date) :
    Except (RunError α) α :=
  (p.totalValue prices).mapError fun
    | .missingPrice symbol => .missingHoldingPrice symbol date
    | e => .target e

def State.rebalance (s : State α) (minTrade value : α) (prices : Table Symbol α)
    (target : Target α) : Except (RunError α) (State α) := do
  let trades ← (Trade.diff s.portfolio target.portfolio prices).mapError .target
  let (kept, ledger) := Trade.filterSmall minTrade s.ledger trades
  let sample : Sample α :=
    ⟨target.date, target.portfolio, value, target.weights, target.scores, kept, prices⟩
  return ⟨target.portfolio, ledger, s.samples ++ [sample], s.skipped, s.scoreErrors⟩

def State.skip (s : State α) (day : SkippedDay α) : State α :=
  { s with skipped := s.skipped ++ [day] }

def day (prices : PriceStore α) (symbols : List Symbol) (config : BacktestConfig α)
    (scores : DailyScores α) (s : State α) (date : Date) : Except (RunError α) (State α) := do
  let prices ← liftStore (prices.pricesOn symbols date)
  let value ← holdingValue s.portfolio prices date
  match scores.get? date with
  | none => .error (.internal (.noScores date))
  | some result =>
    let s := { s with scoreErrors := s.scoreErrors + result.errors.length }
    match Target.compute date result.scores prices config.numTickers value config.weighting with
    | .ok target => s.rebalance config.minTradeQuantity value prices target
    | .error e => return s.skip ⟨date, e⟩

def skippedRatio (skipped days : Nat) : α := (skipped : α) / (days : α)

/-- Fails when too many of the days were skipped. -/
def checkBudget (skipped : List (SkippedDay α)) (days : Nat) : Except (RunError α) Unit :=
  if days = 0 ∨ skipped.isEmpty then .ok ()
  else
    let ratio := skippedRatio skipped.length days
    if ratio < errorBudget then .ok ()
    else .error (.tooManyFailures (ratio * 100.0) (skipped.take quotedErrors))

def run (prices : PriceStore α) (fundamentals : Option (FundamentalsStore α))
    (formula : Formula α) (symbols : List Symbol) (config : BacktestConfig α)
    (cancelled : Bool) : Except (RunError α) (BacktestReport α) := do
  if symbols.isEmpty then .error .noInputs
  else
    let tradingDays ← liftStore (prices.tradingDays config.start config.stop)
    let days := RebalanceDays.select tradingDays config.stop config.interval
    if days.isEmpty then .error (.noTradingDays config.start config.stop)
    else
      let scores ← Scoring.score ⟨prices, fundamentals, none⟩ formula days symbols cancelled
      let last ← days.foldlM (day prices symbols config scores) (.start config.startingCash)
      checkBudget last.skipped days.length
      return ⟨days, last.samples, Snapshot.ofSamples last.samples, last.skipped,
        last.scoreErrors, last.ledger⟩

end Backtest

def BacktestReport.finalValue {α : Type} (r : BacktestReport α) : Option α :=
  r.samples.getLast?.map Sample.totalValue

end FactorPortfolio
