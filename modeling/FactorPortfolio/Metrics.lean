import FactorPortfolio.Backtest.Snapshot
import FactorPortfolio.Scalar.Statistics

/-! # Performance of a series of values

Returns, their deviation and the falls below an earlier peak. A fall is measured against the peak
it starts from, and the points below a peak are counted until there is a higher one.
-/

namespace FactorPortfolio

structure ValuePoint (α : Type) where
  date : Date
  value : α

structure Metrics (α : Type) where
  totalReturn : α
  annualizedReturn : α
  /-- The deviation of the returns from sample to sample, scaled to a year. -/
  annualizedStdev : α
  sharpeRatio : α
  maxDrawdown : α
  /-- The most samples below a peak until there is a higher one. -/
  maxDrawdownDuration : Nat

namespace Metrics

variable {α : Type} [Scalar α]

def daysPerYear : α := 365.0

def ofDays (n : Int) : α := if n < 0 then -(n.natAbs : α) else (n.natAbs : α)

/-- The return from one value to another; none if there is nothing to start with. -/
def returnOf (start stop : α) : α :=
  if (0.0 : α) < start then (stop - start) / start else 0.0

def returns : List (ValuePoint α) → List α
  | p :: q :: rest => returnOf p.value q.value :: returns (q :: rest)
  | _ => []

/-- The yearly growth that leads from one value to the other in some years. -/
def annualizedReturnOf (years start stop : α) : α :=
  if (0.0 : α) < years && (0.0 : α) < start && (0.0 : α) ≤ stop then
    Scalar.pow (stop / start) (1.0 / years) - 1.0
  else 0.0

def annualizedStdevOf (years : α) (rs : List α) : α :=
  match Scalar.sampleStdev? rs with
  | some s => if (0.0 : α) < years then s * Scalar.sqrt ((rs.length : α) / years) else 0.0
  | none => 0.0

/-- The highest value so far and the falls below it. -/
structure Drawdown (α : Type) where
  peak : α
  /-- The largest fall, as a part of its peak. -/
  largest : α
  longest : Nat
  /-- How many points have been below the present peak. -/
  current : Nat

/-- Goes on by one value. A value at the peak neither lasts on nor ends the count of the points
below it. -/
def Drawdown.next (d : Drawdown α) (value : α) : Drawdown α :=
  if d.peak < value then { d with peak := value, current := 0 }
  else if (0.0 : α) < d.peak && value < d.peak then
    ⟨d.peak, Scalar.max d.largest ((d.peak - value) / d.peak), Nat.max d.longest (d.current + 1),
      d.current + 1⟩
  else d

def drawdown (first : α) (values : List α) : Drawdown α :=
  values.foldl Drawdown.next ⟨first, 0.0, 0, 0⟩

def zero : Metrics α := ⟨0.0, 0.0, 0.0, 0.0, 0.0, 0⟩

def compute (points : List (ValuePoint α)) : Metrics α :=
  match points.head?, points.getLast? with
  | some first, some last =>
    let years := ofDays (first.date.daysBetween last.date) / daysPerYear
    let annualizedReturn := annualizedReturnOf years first.value last.value
    let annualizedStdev := annualizedStdevOf years (returns points)
    let sharpeRatio :=
      if (0.0 : α) < annualizedStdev then annualizedReturn / annualizedStdev else 0.0
    let falls := drawdown first.value (points.map ValuePoint.value)
    ⟨returnOf first.value last.value, annualizedReturn, annualizedStdev, sharpeRatio,
      falls.largest, falls.longest⟩
  | _, _ => zero

def ofSamples (samples : List (Sample α)) : Metrics α :=
  compute (samples.map fun s => ⟨s.date, s.totalValue⟩)

end Metrics

end FactorPortfolio
