import FactorPortfolio.Store.Basic

/-! # A store of rows with dates as text

Rows are keyed by symbol and date, and dates are kept and compared as text. Texts of dates sort
like dates as long as all years have four digits and no sign. A number that is none is kept as
absent, which a price must not be, and zero is kept without a sign. Prices that are put in
together are put in all or none.
-/

namespace FactorPortfolio

structure RowKey where
  symbol : Symbol
  date : String
  deriving DecidableEq

namespace RowKey

instance : Ord RowKey := ⟨compareLex (compareOn symbol) (compareOn date)⟩

instance : Std.TransOrd RowKey :=
  inferInstanceAs (Std.TransCmp (compareLex (compareOn symbol) (compareOn date)))

instance : Std.LawfulEqOrd RowKey where
  eq_of_compare {a b} h := by
    obtain ⟨hs, hd⟩ := compareLex_eq_eq.1 h
    obtain ⟨s, d⟩ := a
    obtain ⟨s', d'⟩ := b
    rw [show s = s' from Std.LawfulEqOrd.eq_of_compare hs,
      show d = d' from Std.LawfulEqOrd.eq_of_compare hd]

end RowKey

structure DatabaseStore (α : Type) where
  prices : Table RowKey α
  fundamentals : Table RowKey (Fundamentals α)
  minSymbols : Nat

namespace DatabaseStore

variable {α : Type}

def empty (minSymbols : Nat) : DatabaseStore α := ⟨∅, ∅, Nat.max minSymbols 1⟩

/-- Zero loses its sign. -/
def unsignedZero [Scalar α] (x : α) : α := if x == 0.0 then 0.0 else x

def insertPrice [Scalar α] (s : DatabaseStore α) (p : PricePoint α) :
    Except StoreError (DatabaseStore α) :=
  if Scalar.isNaN p.price then .error (.missingNumber p.symbol p.date)
  else .ok { s with prices := s.prices.insert ⟨p.symbol, p.date.text⟩ (unsignedZero p.price) }

/-- Puts in all of some prices, or fails and puts in none. -/
def insertPrices [Scalar α] (s : DatabaseStore α) (ps : List (PricePoint α)) :
    Except StoreError (DatabaseStore α) := ps.foldlM insertPrice s

/-- A number that is none counts as absent. -/
def kept [Scalar α] (x : Option α) : Option α :=
  (x.filter fun x => !Scalar.isNaN x).map unsignedZero

def insertFundamentals [Scalar α] (s : DatabaseStore α) (symbol : Symbol) (date : Date)
    (r : Fundamentals α) : DatabaseStore α :=
  let row := ⟨kept r.sharesOutstanding, kept r.eps, kept r.totalAssets, kept r.totalLiabilities⟩
  { s with fundamentals := s.fundamentals.insert ⟨symbol, date.text⟩ row }

def readDate (text : String) : Except StoreError Date :=
  match Date.ofText? text with
  | some d => .ok d
  | none => .error (.badDate text)

def within (start stop : Date) (text : String) : Bool :=
  (compare start.text text).isLE && (compare text stop.text).isLE

def pointsIn (s : DatabaseStore α) (range : SymbolRange) :
    Except StoreError (List (PricePoint α)) :=
  (s.prices.entries.filter fun e =>
    e.1.symbol == range.symbol && within range.start range.stop e.1.date).mapM fun e =>
      return ⟨e.1.symbol, ← readDate e.1.date, e.2⟩

def dates (s : DatabaseStore α) : KeySet String := KeySet.ofList (s.prices.keys.map RowKey.date)

def symbolCount (s : DatabaseStore α) (text : String) : Nat :=
  s.prices.keys.countP fun k => k.date == text

/-- Counts are compared with the least count as a signed number of 64 bits. -/
def isTradingDay (s : DatabaseStore α) (text : String) : Bool :=
  Int.bmod s.minSymbols 18446744073709551616 ≤ s.symbolCount text

def tradingDays (s : DatabaseStore α) : List String := s.dates.keys.filter s.isTradingDay

def pricesOn (s : DatabaseStore α) (symbols : List Symbol) (date : Date) : Table Symbol α :=
  Table.ofList (symbols.filterMap fun symbol =>
    (s.prices.get? ⟨symbol, date.text⟩).map fun price => (symbol, price))

def priceStore (s : DatabaseStore α) : PriceStore α where
  points ranges := (ranges.mapM s.pointsIn).map List.flatten
  tradingDays start stop := (s.tradingDays.filter (within start stop)).mapM readDate
  pricesOn symbols date := .ok (s.pricesOn symbols date)
  latestDay := s.tradingDays.getLast?.mapM readDate

/-- The records of a symbol up to a date, in order of their date texts. -/
def recordsUpTo (s : DatabaseStore α) (symbol : Symbol) (date : Date) : List (Fundamentals α) :=
  (s.fundamentals.entries.filter fun e =>
    e.1.symbol == symbol && (compare e.1.date date.text).isLE).map Prod.snd

def fundamentalsStore (s : DatabaseStore α) : FundamentalsStore α where
  latest symbol date := .ok (s.recordsUpTo symbol date).getLast?

end DatabaseStore

end FactorPortfolio
