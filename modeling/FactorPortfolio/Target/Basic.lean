import FactorPortfolio.Portfolio
import FactorPortfolio.Weighting

/-! # The target portfolio of a day

The best symbols are weighted and the weights made into quantities: the dollars of a symbol are its
part of the value rounded to three places, and its quantity is what they buy. All of the value is
invested; a target holds no cash.
-/

namespace FactorPortfolio

structure Target (α : Type) where
  date : Date
  portfolio : Portfolio α
  weights : Table Symbol α
  /-- The scores of the selected symbols. -/
  scores : Table Symbol α

namespace Target

variable {α : Type} [Scalar α]

def minTickers : Nat := 3

/-- Portfolios up to this value are not rebalanced. -/
def minValue : α := 0.001

/-- Rounds to three decimal places, a half going away from zero. -/
def round3 (x : α) : α := Scalar.round (x * 1000.0) / 1000.0

def positivePrice (prices : Table Symbol α) (symbol : Symbol) : Except (TargetError α) α :=
  match prices.get? symbol with
  | some price => if (0.0 : α) < price then .ok price else .error (.missingPrice symbol)
  | none => .error (.missingPrice symbol)

/-- Adds the position of a weighted symbol. -/
def invest (prices : Table Symbol α) (value : α) (p : Portfolio α) (e : Symbol × α) :
    Except (TargetError α) (Portfolio α) := do
  let price ← positivePrice prices e.1
  return p.setQuantity e.1 (round3 (value * e.2) / price)

def compute (date : Date) (scores prices : Table Symbol α) (numTickers : Nat) (value : α)
    (policy : WeightingPolicy α) : Except (TargetError α) (Target α) :=
  if Scalar.isNaN value || value ≤ minValue then .error (.valueTooSmall value)
  else if numTickers < minTickers then .error (.tooFewTickers minTickers numTickers)
  else do
    let weights ← policy.weights scores numTickers
    let portfolio ← weights.entries.foldlM (invest prices value) (.ofCash 0.0)
    return ⟨date, portfolio, weights, scores.filter fun symbol _ => weights.contains symbol⟩

end Target

end FactorPortfolio
