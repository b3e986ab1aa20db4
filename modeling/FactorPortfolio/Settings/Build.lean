import FactorPortfolio.Settings.Check

/-! # What settings describe

A strategy, a backtest and a source of data. Only the strategy is checked on the way; the values of
a backtest are taken as they are.
-/

namespace FactorPortfolio

structure Strategy where
  formula : Formula Float
  symbols : List Symbol

inductive DataSource where
  | files (directory : String)
  | database (path : String)
  | memory
  deriving DecidableEq

namespace Settings

/-- A whole number as a count in 64 bits; below zero it goes on from the top. -/
def toCount (n : Int) : Nat := (n % 18446744073709551616).toNat

def weighting (s : Settings) : Except (RunError Float) (WeightingPolicy Float) :=
  match s.weightingName?.getD "zscore" with
  | "zscore" => .ok (.zScoreTilt s.factorIntensity)
  | "equal" => .ok .equal
  | other => .error (.badSetting "strategy" "weighting" (.unknownWeighting other))

def strategy (s : Settings) : Except (RunError Float) Strategy := do
  s.checkStrategy
  let formula ← s.formula
  let symbols ← s.symbols
  return ⟨formula, symbols⟩

def backtest (s : Settings) : Except (RunError Float) (BacktestConfig Float) := do
  let start ← s.startDate
  let stop ← s.endDate
  let weighting ← s.weighting
  return ⟨start, stop, s.rebalanceInterval, s.startingCash, toCount s.numTickers,
    s.minTradeQuantity, weighting, toCount s.workers⟩

def dataSource (s : Settings) : Except (RunError Float) DataSource :=
  match s.source with
  | "csv" => s.filesDirectory.map .files
  | "sqlite" => s.databasePath.map .database
  | "memory" => .ok .memory
  | other => .error (.badSetting "data" "source" (.unknownSource other))

end Settings

end FactorPortfolio
