import FactorPortfolio.Backtest.Run

/-! # Holdings and trades of the latest day

The latest holdings are the target of the latest stored trading day. A plan also looks at live
quotes: those later than that day replace its prices and move the date of the plan, and the trades
to the target pass the excess ledger of the caller, which a failed plan leaves as it was.
-/

namespace FactorPortfolio

structure LatestHoldings (α : Type) where
  date : Date
  assets : Table Symbol (AssetMetrics α)

structure RebalancePlan (α : Type) where
  date : Date
  value : α
  target : Target α
  trades : List (Trade α)

structure Rebalancer (α : Type) where
  loader : Loader α
  numTickers : Nat
  weighting : WeightingPolicy α

structure DayPrices (α : Type) where
  date : Date
  prices : Table Symbol α

namespace Rebalancer

variable {α : Type} [Scalar α]

/-- The value that the latest holdings are computed for. -/
def holdingsValue : α := 1000.0

def latestDay (r : Rebalancer α) : Except (RunError α) Date := do
  match ← liftStore r.loader.prices.latestDay with
  | some d => return d
  | none => .error .noPriceData

def scoreDay (loader : Loader α) (formula : Formula α) (symbols : List Symbol) (date : Date) :
    Except (RunError α) (ScoreResult α) := do
  let days ← Scoring.score loader formula [date] symbols false
  return (days.get? date).getD ⟨∅, []⟩

def latestTarget (r : Rebalancer α) (formula : Formula α) (symbols : List Symbol) :
    Except (RunError α) (Target α) := do
  let date ← r.latestDay
  let prices ← liftStore (r.loader.prices.pricesOn symbols date)
  let stored := { r.loader with quotes := none }
  let result ← scoreDay stored formula symbols date
  (Target.compute date result.scores prices r.numTickers holdingsValue r.weighting).mapError
    .target

/-- The weights and scores on the latest stored trading day. -/
def latestHoldings (r : Rebalancer α) (formula : Formula α) (symbols : List Symbol) :
    Except (RunError α) (LatestHoldings α) := do
  let target ← r.latestTarget formula symbols
  return ⟨target.date, target.weights.map fun symbol weight =>
    ⟨weight, (target.scores.get? symbol).getD 0.0, none⟩⟩

/-- Puts a quote that is later than the stored day in place of the stored price. -/
def addQuote (stored : Date) (day : DayPrices α) (e : Symbol × Quote α) : DayPrices α :=
  if stored < e.2.date then ⟨day.date.max e.2.date, day.prices.insert e.1 e.2.price⟩ else day

def currentPrices (r : Rebalancer α) (symbols : List Symbol) :
    Except (RunError α) (DayPrices α) := do
  let stored ← r.latestDay
  let prices ← liftStore (r.loader.prices.pricesOn symbols stored)
  match r.loader.quotes with
  | none => return ⟨stored, prices⟩
  | some source =>
    let quotes ← liftStore (source.latest symbols)
    return quotes.entries.foldl (addQuote stored) ⟨stored, prices⟩

/-- A plan before small trades are held back. -/
def propose (r : Rebalancer α) (formula : Formula α) (symbols : List Symbol)
    (current : Portfolio α) : Except (RunError α) (RebalancePlan α) := do
  let day ← r.currentPrices symbols
  let result ← scoreDay r.loader formula symbols day.date
  let value ← Backtest.holdingValue current day.prices day.date
  let target ← (Target.compute day.date result.scores day.prices r.numTickers value
    r.weighting).mapError .target
  let trades ← (Trade.diff current target.portfolio day.prices).mapError .target
  return ⟨day.date, value, target, trades⟩

/-- The trades from a portfolio to the target of today, and the excess ledger after them. -/
def plan (r : Rebalancer α) (formula : Formula α) (symbols : List Symbol)
    (current : Portfolio α) (minTradeQuantity : α) (ledger : ExcessLedger α) :
    Except (RunError α) (RebalancePlan α) × ExcessLedger α :=
  match r.propose formula symbols current with
  | .error e => (.error e, ledger)
  | .ok proposed =>
    let (kept, ledger) := Trade.filterSmall minTradeQuantity ledger proposed.trades
    (.ok { proposed with trades := kept }, ledger)

end Rebalancer

end FactorPortfolio
