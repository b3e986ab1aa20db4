import FactorPortfolio.Market

/-! # Stores

What the engine asks of whoever keeps market data. A store is the record of its answers, so a
definition or a statement that takes a `PriceStore` holds for every way of keeping prices.
-/

namespace FactorPortfolio

inductive StoreError where
  | failure (reason : String)
  /-- A text stands where a date is kept. -/
  | badDate (text : String)
  /-- A price that is no number cannot be kept. -/
  | missingNumber (symbol : Symbol) (date : Date)
  | unreadableFile (path : String)
  /-- A row of a file is no row of its table. -/
  | badRow (path : String)
  | invalidPrice (path price : String) (symbol : Symbol) (date : Date)
  deriving DecidableEq

def StoreError.message : StoreError → String
  | failure reason => reason
  | badDate text => "no date: " ++ text
  | missingNumber symbol date => "no price to keep for " ++ symbol ++ " on " ++ date.text
  | unreadableFile path => "failed to read " ++ path
  | badRow path => "CSV parse error in " ++ path
  | invalidPrice path price symbol date =>
    path ++ ": invalid price " ++ price ++ " for " ++ symbol ++ " on " ++ date.text

structure PriceStore (α : Type) where
  /-- Every stored point inside the ranges, range by range. -/
  points : List SymbolRange → Except StoreError (List (PricePoint α))
  /-- The trading days from one date to another, ascending. -/
  tradingDays : Date → Date → Except StoreError (List Date)
  /-- The prices of some symbols on one date; a symbol without one is left out. -/
  pricesOn : List Symbol → Date → Except StoreError (Table Symbol α)
  latestDay : Except StoreError (Option Date)

structure FundamentalsStore (α : Type) where
  /-- The latest record on or before a date. -/
  latest : Symbol → Date → Except StoreError (Option (Fundamentals α))

structure QuoteSource (α : Type) where
  /-- The latest quotes of some symbols; a symbol without one is left out. -/
  latest : List Symbol → Except StoreError (Table Symbol (Quote α))

end FactorPortfolio
