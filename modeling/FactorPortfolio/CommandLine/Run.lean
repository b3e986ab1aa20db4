import FactorPortfolio.CommandLine.Arguments
import FactorPortfolio.Formula.Requirements
import FactorPortfolio.Report.Shapes
import FactorPortfolio.Report.Summary
import FactorPortfolio.Settings.Build
import FactorPortfolio.Store.Files
import FactorPortfolio.Universe.Coverage
import FactorPortfolio.Workspace

/-! # Running commands

Results are printed; what a command does on the way, its faults among it, is noted. A command ends
with an exit code, which is that of its fault if it has one.
-/

namespace FactorPortfolio

variable {m : Type → Type} [Monad m] [Surroundings m]

abbrev CommandM (m : Type → Type) := ExceptT (RunError Float) m

namespace CommandM

def note (line : String) : CommandM m Unit := ExceptT.lift (Surroundings.note line)

def print (line : String) : CommandM m Unit := ExceptT.lift (Surroundings.print line)

/-- Runs a command to its exit code; a fault is noted. -/
def conclude (action : CommandM m Unit) : m Nat := do
  match ← action.run with
  | .ok () => return 0
  | .error e =>
    Surroundings.note ("error: " ++ e.message)
    return e.exitCode

end CommandM

namespace Command

open CommandM

def loadSettings (path : String) : CommandM m Settings := do
  match ← ExceptT.lift (Surroundings.readText path) with
  | .error _ => throw (.unreadableSettings path)
  | .ok text => ofExcept ((Settings.parse text).mapError (.settingsSyntax path))

structure Stores where
  prices : PriceStore Float
  fundamentals : FundamentalsStore Float

def filePath (directory name : String) : String :=
  if directory.endsWith "/" then directory ++ name else directory ++ "/" ++ name

def fileContent (path : String) : CommandM m FileContent := do
  match ← ExceptT.lift (Surroundings.readText path) with
  | .ok content => return .text content
  | .error fault => return if fault.isAbsence then .absent else .unreadable

def openFiles (directory : String) (minSymbols : Nat) : CommandM m Stores := do
  let pricesPath := filePath directory "prices.csv"
  let fundamentalsPath := filePath directory "fundamentals.csv"
  let prices ← fileContent pricesPath
  let fundamentals ← fileContent fundamentalsPath
  let store ← ofExcept (liftStore (FileStore.load minSymbols pricesPath prices
    fundamentalsPath fundamentals))
  return ⟨store.priceStore, store.fundamentalsStore⟩

def openDatabase (path : String) (minSymbols : Nat) : CommandM m Stores := do
  let store ← ofExcept (liftStore (← ExceptT.lift (Surroundings.openDatabase path)))
  let store := { store with minSymbols := minSymbols }
  return ⟨store.priceStore, store.fundamentalsStore⟩

def openStores (s : Settings) : CommandM m Stores := do
  match ← ofExcept s.dataSource with
  | .files directory => openFiles directory s.minSymbols
  | .database path => openDatabase path s.minSymbols
  | .memory =>
    let store := MemoryStore.empty s.minSymbols
    return ⟨store.priceStore, store.fundamentalsStore⟩

/-! ### Backtests -/

/-- Checks the settings, opens the stores and runs the backtest over the symbols they cover. -/
def executeBacktest (s : Settings) : CommandM m (BacktestReport Float) := do
  ofExcept s.checkBacktest
  let strategy ← ofExcept s.strategy
  let config ← ofExcept s.backtest
  let stores ← openStores s
  let coverage ← ofExcept (Coverage.check stores.prices strategy.symbols config.start config.stop)
  note ("Running backtest: " ++ Decimal.natText coverage.symbols.length ++ " symbols, " ++
    config.start.text ++ " to " ++ config.stop.text)
  note ("  Formula: " ++ strategy.formula.source)
  ofExcept (Backtest.run stores.prices (some stores.fundamentals) strategy.formula
    coverage.symbols config false)

def writeSnapshots (report : BacktestReport Float) (path : String) : CommandM m Unit := do
  match ← ExceptT.lift (Surroundings.writeText path (Report.snapshots report.snapshots).pretty) with
  | .error fault => throw (.output fault)
  | .ok () => note ("\nSnapshots written to: " ++ path)

def runBacktest (config : String) (output : Option String) : CommandM m Unit := do
  note ("Loading config from " ++ config)
  let report ← executeBacktest (← loadSettings config)
  report.summary.forM note
  match output with
  | some path => writeSnapshots report path
  | none => return ()

/-! ### Scores -/

/-- The scores of one day, which has to be a trading day. -/
def computeScores (s : Settings) (date : Date) : CommandM m (ScoreResult Float) := do
  let strategy ← ofExcept s.strategy
  let stores ← openStores s
  let days ← ofExcept (liftStore (stores.prices.tradingDays date date))
  if days.contains date then
    ofExcept (Rebalancer.scoreDay ⟨stores.prices, some stores.fundamentals, none⟩
      strategy.formula strategy.symbols date)
  else throw (.noTradingDays date date)

def runScores (config : String) (date : Date) : CommandM m Unit := do
  let result ← computeScores (← loadSettings config) date
  result.scores.entries.forM fun e => print (e.1 ++ "\t" ++ Scalar.text e.2)
  result.errors.forM fun e => note ("  " ++ e.symbol ++ ": " ++ e.error.message)
  note (Decimal.natText result.scores.size ++ " scored, " ++
    Decimal.natText result.errors.length ++ " errors on " ++ date.text)

/-! ### Holdings -/

def computeHoldings (s : Settings) : CommandM m (LatestHoldings Float) := do
  let strategy ← ofExcept s.strategy
  let stores ← openStores s
  let weighting ← ofExcept s.weighting
  let rebalancer : Rebalancer Float := ⟨⟨stores.prices, some stores.fundamentals, none⟩,
    Settings.toCount s.numTickers, weighting⟩
  ofExcept (rebalancer.latestHoldings strategy.formula strategy.symbols)

def runHoldings (config : String) : CommandM m Unit := do
  let holdings ← computeHoldings (← loadSettings config)
  print (Report.holdings holdings).pretty

/-! ### Formulas -/

def requirementLines (r : Requirements) : List String :=
  let point (kind : String) (p : PointRequest) :=
    "  " ++ kind ++ " " ++ p.symbol ++ " " ++ p.date.text
  r.prices.map (point "price") ++
  r.stdevs.map (fun w => "  stdev " ++ w.symbol ++ " " ++ w.start.text ++ ".." ++ w.stop.text) ++
  r.fundamentals.map (point "fundamentals") ++
  if r.isEmpty then ["  (none)"] else []

/-- Parses a formula and lists what it reads for a symbol on a date. -/
def runValidate (expression symbol : String) (date : Date) : m Nat := do
  Surroundings.note ("Validating formula: " ++ expression)
  match (Formula.parse expression : Except ParseError (Formula Float)) with
  | .error e =>
    Surroundings.note ("  error: " ++ e.inContext expression)
    return (RunError.formulaParse e : RunError Float).exitCode
  | .ok formula =>
    Surroundings.note ("  Parsed: " ++ formula.source)
    let symbol := Text.upper symbol
    match formula.dryRun symbol date with
    | .error e =>
      Surroundings.note ("  error for " ++ symbol ++ " on " ++ date.text ++ ": " ++ e.message)
      return (RunError.formula e).exitCode
    | .ok requirements =>
      Surroundings.note ("\nData read for " ++ symbol ++ " on " ++ date.text ++ ":")
      (requirementLines requirements).forM Surroundings.note
      Surroundings.note "\nFormula is valid."
      return 0

def run : Command → m Nat
  | .backtest config output => conclude (runBacktest config output)
  | .scores config date => conclude (runScores config date)
  | .holdings config => conclude (runHoldings config)
  | .validate expression symbol date => runValidate expression symbol date

end Command

end FactorPortfolio
