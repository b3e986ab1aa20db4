import FactorPortfolio.Portfolio
import FactorPortfolio.Sorting

/-! # Trades

`Trade.diff` lists the trades from one portfolio to another. `Trade.filterSmall` holds back those
that are too small: each trade is first netted with what its symbol has in the excess ledger, the
dollars of small sells are then taken out of the buys, smallest buy first, and what is still small
goes back into the ledger.
-/

namespace FactorPortfolio

/-- A quantity of a symbol to trade at an expected price; a negative quantity sells. -/
structure Trade (α : Type) where
  symbol : Symbol
  quantity : α
  price : α

variable {α : Type} [Scalar α]

namespace Trade

def isSell (t : Trade α) : Bool := t.quantity < 0.0

def amount (t : Trade α) : α := Scalar.abs (t.quantity * t.price)

/-- The trade that brings a symbol from one portfolio to another, if its quantity changes. -/
def change? (current target : Portfolio α) (prices : Table Symbol α) (symbol : Symbol) :
    Except (TargetError α) (Option (Trade α)) :=
  let delta := target.quantity symbol - current.quantity symbol
  if delta == 0.0 then .ok none
  else match prices.get? symbol with
    | some price => .ok (some ⟨symbol, delta, price⟩)
    | none => .error (.missingPrice symbol)

/-- The trades from one portfolio to another in order of their symbols; what the target does not
hold is sold in full. -/
def diff (current target : Portfolio α) (prices : Table Symbol α) :
    Except (TargetError α) (List (Trade α)) :=
  let symbols := (KeySet.ofList (current.positions.keys ++ target.positions.keys)).keys
  (symbols.mapM (change? current target prices)).map (·.filterMap id)

end Trade

/-- Quantities held back from trades, by symbol; none is zero. -/
structure ExcessLedger (α : Type) where
  excess : Table Symbol α

namespace ExcessLedger

def empty : ExcessLedger α := ⟨∅⟩

def quantity (l : ExcessLedger α) (symbol : Symbol) : α := (l.excess.get? symbol).getD 0.0

def carry (l : ExcessLedger α) (symbol : Symbol) (quantity : α) : ExcessLedger α :=
  let total := l.quantity symbol + quantity
  if total == 0.0 then ⟨l.excess.erase symbol⟩ else ⟨l.excess.insert symbol total⟩

def release (l : ExcessLedger α) (symbol : Symbol) : ExcessLedger α := ⟨l.excess.erase symbol⟩

end ExcessLedger

namespace Trade

/-- Nets each trade with the excess of its symbol, which leaves the ledger. -/
def netAll (ledger : ExcessLedger α) : List (Trade α) → List (Trade α) × ExcessLedger α
  | [] => ([], ledger)
  | t :: rest =>
    let (netted, ledger') := netAll (ledger.release t.symbol) rest
    ({ t with quantity := t.quantity + ledger.quantity t.symbol } :: netted, ledger')

/-- Smallest amount first, and by symbol where amounts are equal. -/
def sortByAmount (trades : List (Trade α)) : List (Trade α) :=
  Sorting.sort
    (fun a b => ((Scalar.order a.amount b.amount).then (compare a.symbol b.symbol)) == .lt) trades

/-- Takes an amount of dollars out of buys in their order. Gives the part of the amount that the
buys do not cover, and the buys that are left. -/
def absorb (amount : α) : List (Trade α) → α × List (Trade α)
  | [] => (amount, [])
  | buy :: rest =>
    if (0.0 : α) < buy.price then
      if amount ≤ 0.0 then (amount, buy :: rest)
      else
        let left := buy.amount - amount
        if left < 0.0 then
          let (remaining, rest') := absorb (-left) rest
          (remaining, { buy with quantity := 0.0 } :: rest')
        else (0.0, { buy with quantity := left / buy.price } :: rest)
    else
      let (remaining, rest') := absorb amount rest
      (remaining, buy :: rest')

/-- Takes the small ones of some sells out of the buys, one after the other. Gives the buys that
are left and the sells with what the buys did not cover. -/
def absorbSells (threshold : α) (buys : List (Trade α)) :
    List (Trade α) → List (Trade α) × List (Trade α)
  | [] => (buys, [])
  | sell :: rest =>
    if Scalar.abs sell.quantity ≤ threshold then
      let (remaining, buys') := absorb sell.amount buys
      let quantity := if (0.0 : α) < sell.price then -remaining / sell.price else 0.0
      let (buys'', rest') := absorbSells threshold (sortByAmount buys') rest
      (buys'', { sell with quantity := quantity } :: rest')
    else
      let (buys', rest') := absorbSells threshold buys rest
      (buys', sell :: rest')

def isLarge (threshold : α) (t : Trade α) : Bool := threshold < Scalar.abs t.quantity

def sortBySymbol (trades : List (Trade α)) : List (Trade α) :=
  Sorting.sort (fun a b => compare a.symbol b.symbol == .lt) trades

/-- Keeps the trades above a threshold in order of their symbols, and carries the others. -/
def filterSmall (threshold : α) (ledger : ExcessLedger α) (trades : List (Trade α)) :
    List (Trade α) × ExcessLedger α :=
  let (netted, ledger) := netAll ledger trades
  let (buys, sells) := netted.partition fun t => (0.0 : α) < t.quantity
  let (buys, sells) := absorbSells threshold (sortByAmount buys) sells
  let (large, small) := (buys ++ sells).partition (isLarge threshold)
  (sortBySymbol large, small.foldl (fun l t => l.carry t.symbol t.quantity) ledger)

end Trade

end FactorPortfolio
