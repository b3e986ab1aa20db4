import FactorPortfolio.Scalar.Statistics
import FactorPortfolio.Sorting
import FactorPortfolio.Target.Fault

/-! # Selection and weights

Symbols are ranked by score, the best first, and by name where scores are equal. The best `n` share
the portfolio: in equal parts, or in parts tilted by how many deviations a score lies from the mean
of the selected ones, as far as no part leaves the range from 0 to 1.
-/

namespace FactorPortfolio

inductive WeightingPolicy (α : Type) where
  | equal
  /-- The intensity is how much of the possible tilt is used. -/
  | zScoreTilt (intensity : α)

namespace Weighting

variable {α : Type} [Scalar α]

/-- How far the sum of weights may be from 1. -/
def sumTolerance : α := 1e-4

def ranksBefore (a b : Symbol × α) : Bool :=
  ((Scalar.order b.2 a.2).then (compare a.1 b.1)) == .lt

def rank (scores : Table Symbol α) : List (Symbol × α) := Sorting.sort ranksBefore scores.entries

/-- The best `n` symbols, or all if there are fewer. -/
def top (scores : Table Symbol α) (n : Nat) : List (Symbol × α) := (rank scores).take n

def share (selected : List (Symbol × α)) : α := 1.0 / (selected.length : α)

def equalWeights (selected : List (Symbol × α)) : Table Symbol α :=
  Table.ofList (selected.map fun e => (e.1, share selected))

/-- Each symbol with the distance of its score from the mean, in deviations. -/
def zScores (selected : List (Symbol × α)) (stdev : α) : List (Symbol × α) :=
  let mean := Scalar.mean (selected.map Prod.snd)
  selected.map fun e => (e.1, (e.2 - mean) / stdev)

/-- How far the tilt can go before the weight with the distance `z` leaves the range. -/
def headroom (base z : α) : α := if (0.0 : α) < z then (1.0 - base) / z else base / -z

/-- The largest tilt that keeps all weights in range, at most 1. -/
def maxScale (base : α) (zs : List (Symbol × α)) : α :=
  ((zs.filter fun e => e.2 != 0.0).map fun e => headroom base e.2).foldl Scalar.min 1.0

/-- Equal parts tilted by the distances from the mean; without a spread they stay equal. -/
def tiltedWeights (selected : List (Symbol × α)) (intensity : α) : Table Symbol α :=
  match (Scalar.sampleStdev? (selected.map Prod.snd)).filter fun s => (0.0 : α) < s with
  | none => equalWeights selected
  | some stdev =>
    let zs := zScores selected stdev
    let base := share selected
    let scale := maxScale base zs * intensity
    Table.ofList (zs.map fun e => (e.1, Scalar.max (base + scale * e.2) 0.0))

def weightFault? (symbol : Symbol) (weight : α) : Option (WeightFault α) :=
  if !Scalar.isFinite weight then some (.nonFinite symbol weight)
  else if weight < 0.0 then some (.negative symbol weight)
  else none

/-- What is wrong with some weights: the first bad one, or else their sum. -/
def fault? (weights : Table Symbol α) : Option (WeightFault α) :=
  match weights.entries.findSome? fun e => weightFault? e.1 e.2 with
  | some fault => some fault
  | none =>
    let sum := Scalar.sum weights.values
    if sumTolerance < Scalar.abs (sum - 1.0) then some (.badSum sum) else none

/-- The weights of selected symbols; a single one has all. -/
def distribute (policy : WeightingPolicy α) (selected : List (Symbol × α)) : Table Symbol α :=
  match selected, policy with
  | [e], _ => Table.ofList [(e.1, 1.0)]
  | _, .equal => equalWeights selected
  | _, .zScoreTilt intensity => tiltedWeights selected intensity

end Weighting

open Weighting in
def WeightingPolicy.weights {α : Type} [Scalar α] (policy : WeightingPolicy α)
    (scores : Table Symbol α) (n : Nat) : Except (TargetError α) (Table Symbol α) :=
  let selected := top scores n
  if selected.length = n then
    let weights := distribute policy selected
    match fault? weights with
    | some fault => .error (.invalidWeights fault)
    | none => .ok weights
  else .error (.notEnoughScores n selected.length)

end FactorPortfolio
