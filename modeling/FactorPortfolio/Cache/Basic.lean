import FactorPortfolio.Calendar.Date
import FactorPortfolio.Formula.Requirements

/-! # The price cache

A cache holds what a batch of evaluations asked for, as far as the stores have it, and is never
changed after it has been loaded. A look-up that finds nothing tells whether it had been asked for.
-/

namespace FactorPortfolio

structure Cache (α : Type) where
  prices : Table PointRequest α
  stdevs : Table WindowRequest α
  fundamentals : Table PointRequest (Option (Fundamentals α))
  /-- The trading days of the loaded stretch, ascending. -/
  tradingDays : List Date
  requestedPrices : KeySet PointRequest
  requestedStdevs : KeySet WindowRequest

namespace Cache

variable {α : Type}

def price (c : Cache α) (symbol : Symbol) (date : Date) : Except CacheMiss α :=
  match c.prices.get? ⟨symbol, date⟩ with
  | some x => .ok x
  | none => .error (.price symbol date (c.requestedPrices.contains ⟨symbol, date⟩))

def stdev (c : Cache α) (symbol : Symbol) (start stop : Date) : Except CacheMiss α :=
  match c.stdevs.get? ⟨symbol, start, stop⟩ with
  | some x => .ok x
  | none => .error (.stdev symbol start stop (c.requestedStdevs.contains ⟨symbol, start, stop⟩))

def record (c : Cache α) (symbol : Symbol) (date : Date) :
    Except CacheMiss (Option (Fundamentals α)) :=
  match c.fundamentals.get? ⟨symbol, date⟩ with
  | some r => .ok r
  | none => .error (.fundamentals symbol date)

def isTradingDay (c : Cache α) (date : Date) : Bool := date.isIn c.tradingDays

def size (c : Cache α) : Nat := c.prices.size

def isEmpty (c : Cache α) : Bool := c.size == 0

def source (c : Cache α) : MetricSource α where
  price symbol date := (c.price symbol date).mapError .cacheMiss
  stdev symbol start stop := (c.stdev symbol start stop).mapError .cacheMiss
  fundamentals symbol date := (c.record symbol date).mapError .cacheMiss

end Cache

end FactorPortfolio
