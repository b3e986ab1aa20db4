import FactorPortfolio.Formula.Parser
import FactorPortfolio.Settings.Values
import FactorPortfolio.Universe.Coverage

/-! # Checks of settings

Every setting that a run reads is checked before any data is loaded; the first fault ends the
check. A number that cannot be read has been replaced by its default and passes.
-/

namespace FactorPortfolio.Settings

/-- Fails with a fault of one setting unless a condition holds. -/
def demand (holds : Bool) (group name : String) (fault : SettingFault) :
    Except (RunError Float) Unit :=
  if holds then .ok () else .error (.badSetting group name fault)

/-! ### Backtests -/

def checkDates (s : Settings) : Except (RunError Float) Unit := do
  let start ← s.startDate
  let stop ← s.endDate
  demand (start ≤ stop) "backtest" "start_date" .startAfterEnd

def checkStartingCash (s : Settings) : Except (RunError Float) Unit :=
  demand (s.startingCash.isFinite && 0 < s.startingCash) "backtest" "starting_cash"
    (.notPositive "starting_cash")

def checkLeast (name : String) (least : Nat) (value : Int) : Except (RunError Float) Unit :=
  demand (least ≤ value) "backtest" name (.below name least)

def checkMinTradeQuantity (s : Settings) : Except (RunError Float) Unit :=
  demand (s.minTradeQuantity.isFinite && 0 ≤ s.minTradeQuantity) "backtest" "min_trade_quantity"
    (.negative "min_trade_quantity")

def checkBacktest (s : Settings) : Except (RunError Float) Unit := do
  s.checkDates
  s.checkStartingCash
  checkLeast "num_tickers" Target.minTickers s.numTickers
  checkLeast "rebalance_interval_days" 1 s.rebalanceInterval
  s.checkMinTradeQuantity
  checkLeast "workers" 1 s.workers

/-! ### Strategies -/

def formula (s : Settings) : Except (RunError Float) (Formula Float) := do
  (Formula.parse (← s.expression)).mapError .formulaParse

def symbols (s : Settings) : Except (RunError Float) (List Symbol) := do
  let text ← s.universeText
  (Symbols.parse text).mapError fun fault => .badSetting "strategy" "universe" (.symbols fault)

def weightings : List String := ["zscore", "equal"]

def checkWeightingName (s : Settings) : Except (RunError Float) Unit :=
  demand (s.weightingName?.all weightings.contains) "strategy" "weighting" .unlistedWeighting

def checkIntensity (s : Settings) : Except (RunError Float) Unit :=
  demand (0 < s.factorIntensity && s.factorIntensity ≤ 1) "strategy" "factor_intensity"
    .intensityRange

def checkStrategy (s : Settings) : Except (RunError Float) Unit := do
  let _ ← s.formula
  let _ ← s.symbols
  s.checkWeightingName
  s.checkIntensity

end FactorPortfolio.Settings
