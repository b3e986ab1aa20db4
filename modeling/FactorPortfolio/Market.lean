import FactorPortfolio.Calendar.Text
import FactorPortfolio.Scalar.Statistics
import FactorPortfolio.Table

/-! # Market data

What stores hold and give out: prices of symbols on dates, figures from balance sheets, and live
quotes with the time of day they were taken.
-/

namespace FactorPortfolio

/-- The name that a security is traded under. -/
abbrev Symbol := String

abbrev Series (α : Type) := Table Date α

structure PricePoint (α : Type) where
  symbol : Symbol
  date : Date
  price : α

/-- Dates of one symbol to fetch, both ends included. -/
structure SymbolRange where
  symbol : Symbol
  start : Date
  stop : Date
  deriving DecidableEq

/-- Figures on file for a symbol; each may be absent. -/
structure Fundamentals (α : Type) where
  sharesOutstanding : Option α
  eps : Option α
  totalAssets : Option α
  totalLiabilities : Option α

structure TimeOfDay where
  hour : Nat
  minute : Nat
  second : Nat
  deriving DecidableEq

structure Quote (α : Type) where
  price : α
  date : Date
  time : TimeOfDay

def Quote.moment {α : Type} (q : Quote α) : String :=
  q.date.text ++ " " ++ Decimal.padded 2 q.time.hour ++ ":" ++ Decimal.padded 2 q.time.minute ++
    ":" ++ Decimal.padded 2 q.time.second

/-- The change from one price to a later one, in percent of the later one. -/
def percentChange {α : Type} [Scalar α] (start stop : α) : α := (stop - start) / stop * 100.0

end FactorPortfolio
