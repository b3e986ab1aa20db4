import FactorPortfolio.Backtest.Days
import FactorPortfolio.Backtest.Run
import FactorPortfolio.Backtest.Snapshot
import FactorPortfolio.Cache.Basic
import FactorPortfolio.Cache.Load
import FactorPortfolio.Calendar.Civil
import FactorPortfolio.Calendar.Date
import FactorPortfolio.Calendar.Shift
import FactorPortfolio.Calendar.Text
import FactorPortfolio.CommandLine.Arguments
import FactorPortfolio.CommandLine.Command
import FactorPortfolio.CommandLine.Run
import FactorPortfolio.Decimal.Digits
import FactorPortfolio.Decimal.Layout
import FactorPortfolio.Decimal.Read
import FactorPortfolio.Decimal.Shortest
import FactorPortfolio.Formula.Eval
import FactorPortfolio.Formula.Expr
import FactorPortfolio.Formula.Fault
import FactorPortfolio.Formula.Parser
import FactorPortfolio.Formula.Reading
import FactorPortfolio.Formula.Requirements
import FactorPortfolio.Formula.Token
import FactorPortfolio.Main
import FactorPortfolio.Market
import FactorPortfolio.Metrics
import FactorPortfolio.Portfolio
import FactorPortfolio.Proofs.Backtest.Accounting
import FactorPortfolio.Proofs.Backtest.Days
import FactorPortfolio.Proofs.Backtest.Drift
import FactorPortfolio.Proofs.Backtest.Excess
import FactorPortfolio.Proofs.Backtest.Extension
import FactorPortfolio.Proofs.Backtest.GreedyDays
import FactorPortfolio.Proofs.Backtest.RebalanceDays
import FactorPortfolio.Proofs.Backtest.ValueChain
import FactorPortfolio.Proofs.Backtest.ValueCurve
import FactorPortfolio.Proofs.Cache.Contents
import FactorPortfolio.Proofs.Cache.Loaded
import FactorPortfolio.Proofs.Cache.Market
import FactorPortfolio.Proofs.Cache.Quotes
import FactorPortfolio.Proofs.Cache.Reads
import FactorPortfolio.Proofs.Cache.Series
import FactorPortfolio.Proofs.Cache.Volatility
import FactorPortfolio.Proofs.Cache.Windows
import FactorPortfolio.Proofs.Calendar.Civil
import FactorPortfolio.Proofs.Calendar.Order
import FactorPortfolio.Proofs.Calendar.Search
import FactorPortfolio.Proofs.Calendar.Shift
import FactorPortfolio.Proofs.Calendar.Text
import FactorPortfolio.Proofs.Calendar.TextOrder
import FactorPortfolio.Proofs.Decimal.Digits
import FactorPortfolio.Proofs.Except
import FactorPortfolio.Proofs.Formula.Ago
import FactorPortfolio.Proofs.Formula.Asked
import FactorPortfolio.Proofs.Formula.Bounds
import FactorPortfolio.Proofs.Formula.Caret
import FactorPortfolio.Proofs.Formula.Dates
import FactorPortfolio.Proofs.Formula.DryRun
import FactorPortfolio.Proofs.Formula.Expr
import FactorPortfolio.Proofs.Formula.FirstFault
import FactorPortfolio.Proofs.Formula.Grammar
import FactorPortfolio.Proofs.Formula.Parsing
import FactorPortfolio.Proofs.Formula.Rendering
import FactorPortfolio.Proofs.Formula.Simulation
import FactorPortfolio.Proofs.Formula.Spelling
import FactorPortfolio.Proofs.Metrics.Drawdown
import FactorPortfolio.Proofs.Metrics.Duration
import FactorPortfolio.Proofs.Portfolio.Difference
import FactorPortfolio.Proofs.Portfolio.Traded
import FactorPortfolio.Proofs.Portfolio.Worth
import FactorPortfolio.Proofs.Rebalance.Holdings
import FactorPortfolio.Proofs.Rebalance.Plan
import FactorPortfolio.Proofs.Rebalance.ScoredPrice
import FactorPortfolio.Proofs.Rebalance.SelfFinancing
import FactorPortfolio.Proofs.Rebalance.StaleQuotes
import FactorPortfolio.Proofs.Scalar.Deviation
import FactorPortfolio.Proofs.Scalar.Exact
import FactorPortfolio.Proofs.Scalar.Nearest
import FactorPortfolio.Proofs.Scalar.Order
import FactorPortfolio.Proofs.Scalar.Quotient
import FactorPortfolio.Proofs.Scalar.Rounding
import FactorPortfolio.Proofs.Scalar.Sums
import FactorPortfolio.Proofs.Scalar.Value
import FactorPortfolio.Proofs.Scalar.Whole
import FactorPortfolio.Proofs.Scoring.Arrival
import FactorPortfolio.Proofs.Scoring.Batch
import FactorPortfolio.Proofs.Scoring.Batches
import FactorPortfolio.Proofs.Scoring.Breakdown
import FactorPortfolio.Proofs.Scoring.Collected
import FactorPortfolio.Proofs.Scoring.Compared
import FactorPortfolio.Proofs.Scoring.DayByDay
import FactorPortfolio.Proofs.Scoring.Direct
import FactorPortfolio.Proofs.Scoring.LookAhead
import FactorPortfolio.Proofs.Scoring.Pool
import FactorPortfolio.Proofs.Scoring.Unforeseen
import FactorPortfolio.Proofs.Settings.Checked
import FactorPortfolio.Proofs.Sorting
import FactorPortfolio.Proofs.Store.Calendar
import FactorPortfolio.Proofs.Store.Interchange
import FactorPortfolio.Proofs.Table
import FactorPortfolio.Proofs.Target.Compute
import FactorPortfolio.Proofs.Target.Outcome
import FactorPortfolio.Proofs.Trades.Absorb
import FactorPortfolio.Proofs.Trades.AtOnce
import FactorPortfolio.Proofs.Trades.Ledger
import FactorPortfolio.Proofs.Trades.Netting
import FactorPortfolio.Proofs.Universe.Coverage
import FactorPortfolio.Proofs.Universe.Symbols
import FactorPortfolio.Proofs.Weighting.Headroom
import FactorPortfolio.Proofs.Weighting.Selection
import FactorPortfolio.Proofs.Weighting.SumToOne
import FactorPortfolio.Proofs.Weighting.ZeroSpread
import FactorPortfolio.Rebalance
import FactorPortfolio.Report.Json
import FactorPortfolio.Report.Shapes
import FactorPortfolio.Report.Summary
import FactorPortfolio.RunError
import FactorPortfolio.Scalar.Binary64
import FactorPortfolio.Scalar.Statistics
import FactorPortfolio.Scoring
import FactorPortfolio.Settings.Basic
import FactorPortfolio.Settings.Build
import FactorPortfolio.Settings.Check
import FactorPortfolio.Settings.Values
import FactorPortfolio.Sorting
import FactorPortfolio.Store.Basic
import FactorPortfolio.Store.Database
import FactorPortfolio.Store.DatabaseName
import FactorPortfolio.Store.Files
import FactorPortfolio.Store.Memory
import FactorPortfolio.Table
import FactorPortfolio.Target.Basic
import FactorPortfolio.Target.Fault
import FactorPortfolio.Text.Blank
import FactorPortfolio.Text.Case
import FactorPortfolio.Text.Cased
import FactorPortfolio.Text.Csv
import FactorPortfolio.Text.Letters
import FactorPortfolio.Trades
import FactorPortfolio.Universe.Coverage
import FactorPortfolio.Weighting
import FactorPortfolio.Workspace
