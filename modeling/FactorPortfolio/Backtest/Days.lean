import FactorPortfolio.Calendar.Date

/-! # Rebalance days

From the first trading day on, a trading day is taken and the cursor jumps by the interval; from a
day without trading it moves on by one. The walk ends after the last day or where the calendar
does, so as many steps as there are days between are enough.
-/

namespace FactorPortfolio.RebalanceDays

/-- Walks on from a day, by at most so many steps. -/
def walk (tradingDays : List Date) (stop : Date) (interval : Int) : Nat → Date → List Date
  | 0, _ => []
  | steps + 1, d =>
    if d ≤ stop then
      if d.isIn tradingDays then
        match d.addDays? interval with
        | some next => d :: walk tradingDays stop interval steps next
        | none => [d]
      else
        match d.addDays? 1 with
        | some next => walk tradingDays stop interval steps next
        | none => []
    else []

/-- The rebalance days among some trading days up to `stop`; an interval is at least a day. -/
def select (tradingDays : List Date) (stop : Date) (interval : Int) : List Date :=
  match tradingDays.head? with
  | none => []
  | some first =>
    walk tradingDays stop (max interval 1) ((first.daysBetween stop).toNat + 1) first

end FactorPortfolio.RebalanceDays
