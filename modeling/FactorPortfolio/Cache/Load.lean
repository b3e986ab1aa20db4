import FactorPortfolio.Cache.Basic
import FactorPortfolio.RunError
import FactorPortfolio.Scalar.Statistics

/-! # Loading a cache

For every symbol the dates from a week before its earliest request to its latest one are fetched.
A price is the latest one of the week that ends on its date. A volatility is taken over the returns
of its symbol inside the window, if those returns come within a week of both ends of it. Live
quotes that are later than every fetched trading day count as prices of further trading days.
-/

namespace FactorPortfolio

/-- How many days back a missing price may come from, and how near returns have to come to the
ends of a window. -/
def gapDays : Int := 7

structure Loader (α : Type) where
  prices : PriceStore α
  fundamentals : Option (FundamentalsStore α)
  quotes : Option (QuoteSource α)

abbrev DateWindow := Date × Date

/-- Fetched prices by symbol, and the trading days known. -/
structure Fetched (α : Type) where
  series : Table Symbol (Series α)
  tradingDays : List Date

namespace Requirements

def widen (windows : Table Symbol DateWindow) (symbol : Symbol) (low high : Date) :
    Table Symbol DateWindow :=
  match windows.get? symbol with
  | none => windows.insert symbol (low, high)
  | some (first, last) => windows.insert symbol (first.min low, last.max high)

/-- The dates that prices and volatilities are requested for, symbol by symbol. -/
def symbolWindows (r : Requirements) : Table Symbol DateWindow :=
  let ofPrices := r.prices.foldl (fun windows p => widen windows p.symbol p.date p.date) ∅
  r.stdevs.foldl (fun windows w => widen windows w.symbol w.start w.stop) ofPrices

end Requirements

def overallWindow : List DateWindow → Option DateWindow
  | [] => none
  | w :: rest => some (rest.foldl (fun acc v => (acc.1.min v.1, acc.2.max v.2)) w)

variable {α : Type} [Scalar α]

def Series.latestWithin (s : Series α) (date : Date) : Option α :=
  (Table.between s (date.back gapDays) date).last?.map Prod.snd

/-- The changes from each price to the next, under the date of the later one. -/
def returnsOf : List (Date × α) → List (Date × α)
  | (_, p) :: (d, p') :: rest => (d, percentChange p p') :: returnsOf ((d, p') :: rest)
  | _ => []

/-- The returns of a symbol inside its window; a window that runs backwards cannot be cut out. -/
def dailyReturns (symbol : Symbol) (s : Series α) (window : DateWindow) :
    Except (RunError α) (List (Date × α)) :=
  if window.2 < window.1 then .error (.reversedWindow symbol window.1 window.2)
  else .ok (returnsOf (Table.between s window.1 window.2).entries)

def tradingDaysPerYear : α := 252.0

/-- The deviation of the returns from one date to another, scaled to a year. There is none when
the returns stay more than a week away from an end of the window or are fewer than two. -/
def annualizedStdev (returns : List (Date × α)) (start stop : Date) : Option α := do
  let first ← returns.head?
  let last ← returns.getLast?
  if start.ahead gapDays < first.1 || last.1 < stop.back gapDays then none
  else
    let inside := returns.filter fun r => start ≤ r.1 && r.1 ≤ stop
    let s ← Scalar.sampleStdev? (inside.map Prod.snd)
    return s * Scalar.sqrt tradingDaysPerYear

namespace Fetched

def add (f : Fetched α) (symbol : Symbol) (date : Date) (price : α) : Fetched α :=
  let s := (f.series.get? symbol).getD ∅
  { f with series := f.series.insert symbol (s.insert date price) }

/-- Puts in the quotes that are later than the last trading day, their dates as trading days. -/
def mergeQuotes (f : Fetched α) (quotes : Table Symbol (Quote α)) : Fetched α :=
  let fresh := quotes.filter fun _ q => f.tradingDays.getLast?.all fun last => last < q.date
  let priced := fresh.entries.foldl (fun f e => f.add e.1 e.2.date e.2.price) f
  ⟨priced.series, f.tradingDays ++ (KeySet.ofList (fresh.values.map Quote.date)).keys⟩

def price? (f : Fetched α) (r : PointRequest) : Option α :=
  (f.series.get? r.symbol).bind (·.latestWithin r.date)

/-- The volatility over a window, taken from the returns inside the window of its symbol. -/
def stdev? (f : Fetched α) (windows : Table Symbol DateWindow) (r : WindowRequest) :
    Except (RunError α) (Option α) :=
  match f.series.get? r.symbol, windows.get? r.symbol with
  | some s, some window =>
    (dailyReturns r.symbol s window).map fun returns => annualizedStdev returns r.start r.stop
  | _, _ => .ok none

end Fetched

namespace Loader

/-- Fetches prices and trading days for some windows, and merges the quotes of their symbols. -/
def fetch (l : Loader α) (windows : Table Symbol DateWindow) (overall : DateWindow) :
    Except (RunError α) (Fetched α) := do
  let ranges := windows.entries.map fun e => ⟨e.1, e.2.1.back gapDays, e.2.2⟩
  let points ← liftStore (l.prices.points ranges)
  let days ← liftStore (l.prices.tradingDays (overall.1.back gapDays) overall.2)
  let fetched := points.foldl (fun f p => f.add p.symbol p.date p.price) ⟨∅, days⟩
  match l.quotes with
  | none => return fetched
  | some source => return fetched.mergeQuotes (← liftStore (source.latest windows.keys))

/-- The entries of a table for those keys that have a value. -/
def tabulate {κ ν : Type} [Ord κ] [Std.TransOrd κ] (f : κ → Option ν) (keys : List κ) :
    Table κ ν :=
  Table.ofList (keys.filterMap fun k => (f k).map fun v => (k, v))

/-- The record of a request; without a store nothing is on file. -/
def record (l : Loader α) (r : PointRequest) : Except (RunError α) (Option (Fundamentals α)) :=
  match l.fundamentals with
  | none => .ok none
  | some store => liftStore (store.latest r.symbol r.date)

def load (l : Loader α) (r : Requirements) : Except (RunError α) (Cache α) := do
  let windows := r.symbolWindows
  let fetched ← match overallWindow windows.values with
    | none => pure ⟨∅, []⟩
    | some overall => l.fetch windows overall
  let stdevs ← r.stdevs.mapM fun w => return (w, ← fetched.stdev? windows w)
  let records ← r.fundamentals.mapM fun p => return (p, ← l.record p)
  return {
    prices := tabulate fetched.price? r.prices
    stdevs := Table.ofList (stdevs.filterMap fun e => e.2.map fun v => (e.1, v))
    fundamentals := Table.ofList records
    tradingDays := fetched.tradingDays
    requestedPrices := KeySet.ofList r.prices
    requestedStdevs := KeySet.ofList r.stdevs }

end Loader

end FactorPortfolio
