/-! # Scalars and their statistics

Prices, quantities, weights and scores are numbers of one type `α`, and everything that computes
with them is written for any `Scalar α`: programs run on binary64, statements in exact arithmetic
are about an ordered field. The class asks for operations only; no law is assumed here. Samples have
a mean and a deviation.
-/

namespace FactorPortfolio

class Scalar (α : Type) extends Add α, Sub α, Mul α, Div α, Neg α, NatCast α, OfScientific α,
    LT α, LE α, BEq α where
  decLt : DecidableLT α
  decLe : DecidableLE α
  isFinite : α → Bool
  isNaN : α → Bool
  abs : α → α
  sqrt : α → α
  pow : α → α → α
  /-- The nearest whole number, a half going away from zero. -/
  round : α → α
  /-- The value as an integer, if it is one. -/
  whole? : α → Option Int
  /-- The number in decimal, as messages show it. -/
  text : α → String
  /-- The number in decimal with a set number of places. -/
  fixed : Nat → α → String

namespace Scalar

variable {α : Type} [Scalar α]

instance : DecidableLT α := decLt

instance : DecidableLE α := decLe

/-- The smaller of two numbers; of a number and no number, the number. -/
def min (a b : α) : α := if isNaN a then b else if isNaN b then a else if b < a then b else a

/-- The larger of two numbers; of a number and no number, the number. -/
def max (a b : α) : α := if isNaN a then b else if isNaN b then a else if a < b then b else a

/-- The sum from left to right, starting at the zero that leaves every number as it is. -/
def sum (xs : List α) : α := xs.foldl (· + ·) (-(0.0 : α))

/-- How two numbers compare; a number and no number compare as equal. -/
def order (a b : α) : Ordering := if a < b then .lt else if b < a then .gt else .eq

/-! ### Samples -/

def mean (xs : List α) : α := sum xs / (xs.length : α)

/-- The sum of squared distances from the mean, over one less than the number of samples. -/
def sampleVariance (xs : List α) : α :=
  let m := mean xs
  sum (xs.map fun x => (x - m) * (x - m)) / ((xs.length : α) - 1.0)

/-- The sample standard deviation; it takes two samples at least. -/
def sampleStdev? (xs : List α) : Option α :=
  if xs.length < 2 then none else some (sqrt (sampleVariance xs))

end Scalar

end FactorPortfolio
