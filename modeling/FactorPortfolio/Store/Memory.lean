import FactorPortfolio.Store.Basic

/-! # A store in memory

Prices and records are kept as one table of dates for each symbol, and the latest quote for each
symbol. A date is a trading day when enough symbols have a price on it. A store can be told to
fail, after which every question fails with the same reason.
-/

namespace FactorPortfolio

structure MemoryStore (α : Type) where
  prices : Table Symbol (Series α)
  fundamentals : Table Symbol (Table Date (Fundamentals α))
  quotes : Table Symbol (Quote α)
  /-- How many symbols need a price on a trading day. -/
  minSymbols : Nat
  failure : Option String

namespace MemoryStore

variable {α : Type}

/-- An empty store in which a trading day takes at least one symbol. -/
def empty (minSymbols : Nat) : MemoryStore α := ⟨∅, ∅, ∅, Nat.max minSymbols 1, none⟩

def series (s : MemoryStore α) (symbol : Symbol) : Series α := (s.prices.get? symbol).getD ∅

def records (s : MemoryStore α) (symbol : Symbol) : Table Date (Fundamentals α) :=
  (s.fundamentals.get? symbol).getD ∅

def insertPrice (s : MemoryStore α) (symbol : Symbol) (date : Date) (price : α) : MemoryStore α :=
  { s with prices := s.prices.insert symbol ((s.series symbol).insert date price) }

def insertFundamentals (s : MemoryStore α) (symbol : Symbol) (date : Date)
    (record : Fundamentals α) : MemoryStore α :=
  { s with fundamentals := s.fundamentals.insert symbol ((s.records symbol).insert date record) }

def insertQuote (s : MemoryStore α) (symbol : Symbol) (quote : Quote α) : MemoryStore α :=
  { s with quotes := s.quotes.insert symbol quote }

def symbols (s : MemoryStore α) : List Symbol := s.prices.keys

/-- An answer, unless the store has been told to fail. -/
def guarded {β : Type} (s : MemoryStore α) (answer : β) : Except StoreError β :=
  match s.failure with
  | some reason => .error (.failure reason)
  | none => .ok answer

def pointsIn (s : MemoryStore α) (range : SymbolRange) : List (PricePoint α) :=
  ((s.series range.symbol).between range.start range.stop).entries.map fun e =>
    ⟨range.symbol, e.1, e.2⟩

def dates (s : MemoryStore α) : KeySet Date :=
  KeySet.ofList (s.prices.values.flatMap Table.keys)

def symbolCount (s : MemoryStore α) (date : Date) : Nat :=
  s.prices.values.countP fun series => series.contains date

def isTradingDay (s : MemoryStore α) (date : Date) : Bool := s.minSymbols ≤ s.symbolCount date

def tradingDays (s : MemoryStore α) (start stop : Date) : List Date :=
  (s.dates.between start stop).keys.filter s.isTradingDay

def pricesOn (s : MemoryStore α) (symbols : List Symbol) (date : Date) : Table Symbol α :=
  Table.ofList (symbols.filterMap fun symbol =>
    ((s.series symbol).get? date).map fun price => (symbol, price))

def priceStore (s : MemoryStore α) : PriceStore α where
  points ranges := s.guarded (ranges.flatMap s.pointsIn)
  tradingDays start stop := s.guarded (s.tradingDays start stop)
  pricesOn symbols date := s.guarded (s.pricesOn symbols date)
  latestDay := s.guarded (s.tradingDays .earliest .latest).getLast?

def fundamentalsStore (s : MemoryStore α) : FundamentalsStore α where
  latest symbol date := s.guarded (((s.records symbol).upTo date).last?.map Prod.snd)

def quoteSource (s : MemoryStore α) : QuoteSource α where
  latest symbols := s.guarded (Table.ofList (symbols.filterMap fun symbol =>
    (s.quotes.get? symbol).map fun quote => (symbol, quote)))

end MemoryStore

end FactorPortfolio
