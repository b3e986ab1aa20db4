import FactorPortfolio.Market

/-! # Why a day has no target portfolio -/

namespace FactorPortfolio

inductive WeightFault (α : Type) where
  | nonFinite (symbol : Symbol) (weight : α)
  | negative (symbol : Symbol) (weight : α)
  | badSum (sum : α)

inductive TargetError (α : Type) where
  | tooFewTickers (minimum found : Nat)
  | valueTooSmall (value : α)
  | notEnoughScores (expected found : Nat)
  | invalidWeights (fault : WeightFault α)
  | missingPrice (symbol : Symbol)

variable {α : Type} [Scalar α]

open Decimal

def WeightFault.message : WeightFault α → String
  | nonFinite symbol weight => "weight for " ++ symbol ++ " is " ++ Scalar.text weight
  | negative symbol weight => "negative weight " ++ Scalar.text weight ++ " for " ++ symbol
  | badSum sum => "weights should sum to 1, got " ++ Scalar.text sum

def TargetError.message : TargetError α → String
  | tooFewTickers minimum found =>
    "num_tickers must be at least " ++ natText minimum ++ ", got " ++ natText found
  | valueTooSmall value => "portfolio value " ++ Scalar.text value ++ " is too small"
  | notEnoughScores expected found =>
    "target portfolio should have " ++ natText expected ++
      " assets but calculated scores for " ++ natText found
  | invalidWeights fault => "invalid weights: " ++ fault.message
  | missingPrice symbol => "no price for " ++ symbol

/-- A day that could not be rebalanced, and why. -/
structure SkippedDay (α : Type) where
  date : Date
  error : TargetError α

def SkippedDay.message (s : SkippedDay α) : String := s.date.text ++ ": " ++ s.error.message

end FactorPortfolio
