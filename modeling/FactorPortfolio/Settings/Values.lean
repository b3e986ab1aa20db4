import FactorPortfolio.Backtest.Run
import FactorPortfolio.Settings.Basic

/-! # The values that runs read

Every setting of a run with its group, its name and its default.
-/

namespace FactorPortfolio.Settings

def require (s : Settings) (group name : String) : Except (RunError Float) String :=
  match s.text? group name with
  | some value => .ok value
  | none => .error (.missingSetting group name)

def date (s : Settings) (group name : String) : Except (RunError Float) Date := do
  let value ← s.require group name
  match Date.ofText? value with
  | some d => return d
  | none => .error (.badSetting group name (.dateFormat name))

/-! ### Backtests -/

def startDate (s : Settings) : Except (RunError Float) Date := s.date "backtest" "start_date"

def endDate (s : Settings) : Except (RunError Float) Date := s.date "backtest" "end_date"

def startingCash (s : Settings) : Float :=
  s.number "backtest" "starting_cash" Backtest.defaultStartingCash

def numTickers (s : Settings) : Int :=
  s.int "backtest" "num_tickers" Backtest.defaultNumTickers

def rebalanceInterval (s : Settings) : Int :=
  s.int "backtest" "rebalance_interval_days" Backtest.defaultInterval

def minTradeQuantity (s : Settings) : Float :=
  s.number "backtest" "min_trade_quantity" Backtest.defaultMinTradeQuantity

def workers (s : Settings) : Int := s.int "backtest" "workers" Backtest.defaultWorkers

/-! ### Strategies -/

def expression (s : Settings) : Except (RunError Float) String :=
  s.require "strategy" "expression"

def universeText (s : Settings) : Except (RunError Float) String :=
  s.require "strategy" "universe"

def weightingName? (s : Settings) : Option String := s.text? "strategy" "weighting"

def factorIntensity (s : Settings) : Float :=
  s.number "strategy" "factor_intensity" Backtest.defaultIntensity

/-! ### Data -/

def source (s : Settings) : String := (s.text? "data" "source").getD "csv"

def filesDirectory (s : Settings) : Except (RunError Float) String := s.require "data" "csv_dir"

def databasePath (s : Settings) : Except (RunError Float) String := s.require "sqlite" "path"

/-- How many symbols need a price on a trading day. -/
def minSymbols (s : Settings) : Nat := (s.int "data" "min_symbols_per_day" 1).toNat.max 1

end FactorPortfolio.Settings
