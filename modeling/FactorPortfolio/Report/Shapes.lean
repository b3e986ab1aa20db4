import FactorPortfolio.Metrics
import FactorPortfolio.Rebalance
import FactorPortfolio.Report.Json

/-! # What reports show -/

namespace FactorPortfolio.Report

open Json

def optionalNumber : Option Float → Json
  | some x => number x
  | none => null

def numbers (t : Table Symbol Float) : Json := object (t.entries.map fun e => (e.1, number e.2))

def assetMetrics (m : AssetMetrics Float) : Json :=
  object [("assetWeight", number m.weight), ("factorScore", number m.score),
    ("priceChangeTilNextResampling", optionalNumber m.priceChange)]

def assets (t : Table Symbol (AssetMetrics Float)) : Json :=
  object (t.entries.map fun e => (e.1, assetMetrics e.2))

def snapshot (s : Snapshot Float) : Json :=
  object [("date", text s.date.text), ("value", number s.value),
    ("valuePercentChange", number s.valueChange), ("assetMetrics", assets s.assets)]

def snapshots (t : Table Date (Snapshot Float)) : Json :=
  object (t.entries.map fun e => (e.1.text, snapshot e.2))

def holdings (h : LatestHoldings Float) : Json :=
  object [("date", text h.date.text), ("assets", assets h.assets)]

def metrics (m : Metrics Float) : Json :=
  object [("totalReturn", number m.totalReturn), ("annualizedReturn", number m.annualizedReturn),
    ("annualizedStdev", number m.annualizedStdev), ("sharpeRatio", number m.sharpeRatio),
    ("maxDrawdown", number m.maxDrawdown), ("maxDrawdownDuration", count m.maxDrawdownDuration)]

def portfolio (p : Portfolio Float) : Json :=
  let position (e : Symbol × Float) : String × Json :=
    (e.1, object [("symbol", text e.1), ("quantity", number e.2)])
  object [("positions", object (p.positions.entries.map position)), ("cash", number p.cash)]

def trade (t : Trade Float) : Json :=
  object [("symbol", text t.symbol), ("quantity", number t.quantity),
    ("expectedPrice", number t.price)]

def trades (ts : List (Trade Float)) : Json := array (ts.map trade)

def ledger (l : ExcessLedger Float) : Json := object [("excess", numbers l.excess)]

end FactorPortfolio.Report
