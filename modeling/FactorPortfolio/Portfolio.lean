import FactorPortfolio.Target.Fault

/-! # Portfolios

Holdings by symbol and a balance of cash. A quantity of zero is no position.
-/

namespace FactorPortfolio

structure Portfolio (α : Type) where
  positions : Table Symbol α
  cash : α

namespace Portfolio

variable {α : Type} [Scalar α]

def ofCash (cash : α) : Portfolio α := ⟨∅, cash⟩

/-- Sets the quantity held of a symbol; zero closes the position. -/
def setQuantity (p : Portfolio α) (symbol : Symbol) (quantity : α) : Portfolio α :=
  if quantity == 0.0 then ⟨p.positions.erase symbol, p.cash⟩
  else ⟨p.positions.insert symbol quantity, p.cash⟩

/-- The quantity held, zero for a symbol that is not held. -/
def quantity (p : Portfolio α) (symbol : Symbol) : α := (p.positions.get? symbol).getD 0.0

def setCash (p : Portfolio α) (cash : α) : Portfolio α := ⟨p.positions, cash⟩

def remove (p : Portfolio α) (symbol : Symbol) : Portfolio α := ⟨p.positions.erase symbol, p.cash⟩

/-- Adds what a position is worth; it has to have a price. -/
def addWorth (prices : Table Symbol α) (value : α) (position : Symbol × α) :
    Except (TargetError α) α :=
  match prices.get? position.1 with
  | some price => .ok (value + position.2 * price)
  | none => .error (.missingPrice position.1)

def totalValue (p : Portfolio α) (prices : Table Symbol α) : Except (TargetError α) α :=
  p.positions.entries.foldlM (addWorth prices) p.cash

end Portfolio

end FactorPortfolio
