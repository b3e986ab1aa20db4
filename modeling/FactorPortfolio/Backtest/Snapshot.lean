import FactorPortfolio.Target.Basic
import FactorPortfolio.Trades

/-! # Samples and snapshots

Every rebalance of a backtest leaves a sample. A snapshot sums it up for reports: the value and its
change since the first rebalance, and for each asset its weight, its score and how far its price
moves until the next rebalance.
-/

namespace FactorPortfolio

/-- One rebalance of a backtest. -/
structure Sample (α : Type) where
  date : Date
  /-- The portfolio after the rebalance. -/
  portfolio : Portfolio α
  /-- What the portfolio before the rebalance is worth on this day. -/
  totalValue : α
  weights : Table Symbol α
  scores : Table Symbol α
  trades : List (Trade α)
  /-- The prices of this day. -/
  prices : Table Symbol α

structure AssetMetrics (α : Type) where
  weight : α
  score : α
  /-- The change of the price until the next sample in percent, if both have one. -/
  priceChange : Option α

structure Snapshot (α : Type) where
  date : Date
  value : α
  /-- The change of the value since the first sample in percent. -/
  valueChange : α
  assets : Table Symbol (AssetMetrics α)

namespace Snapshot

variable {α : Type} [Scalar α]

/-- The change from one price to the next in percent of the first, which must not be zero. -/
def priceChange? (start stop : α) : Option α :=
  if start != 0.0 then some (100.0 * (stop - start) / start) else none

def changeUntil (sample : Sample α) (next : Option (Sample α)) (symbol : Symbol) : Option α := do
  let next ← next
  let start ← sample.prices.get? symbol
  let stop ← next.prices.get? symbol
  priceChange? start stop

def assetsOf (sample : Sample α) (next : Option (Sample α)) : Table Symbol (AssetMetrics α) :=
  sample.weights.map fun symbol weight =>
    ⟨weight, (sample.scores.get? symbol).getD 0.0, changeUntil sample next symbol⟩

/-- The change since a first value in percent; none if that value is zero. -/
def changeSince (first value : α) : α :=
  if first == 0.0 then 0.0 else 100.0 * (value - first) / first

def following (first : α) : List (Sample α) → List (Snapshot α)
  | [] => []
  | s :: rest =>
    ⟨s.date, s.totalValue, changeSince first s.totalValue, assetsOf s rest.head?⟩ ::
      following first rest

/-- The snapshots of all samples; the first one has no change of its value. -/
def list : List (Sample α) → List (Snapshot α)
  | [] => []
  | s :: rest =>
    ⟨s.date, s.totalValue, 0.0, assetsOf s rest.head?⟩ :: following s.totalValue rest

def ofSamples (samples : List (Sample α)) : Table Date (Snapshot α) :=
  Table.ofList ((list samples).map fun s => (s.date, s))

end Snapshot

end FactorPortfolio
