import FactorPortfolio.Cache.Load
import FactorPortfolio.Text.Case

/-! # The symbols of a run

Symbols are listed with commas between them; blanks around them are dropped and they are put into
upper case. Those that a store has no prices for can be told from the others.
-/

namespace FactorPortfolio

/-! ### Lists of symbols -/

namespace Symbols

/-- Adds a symbol to those already read, which it must not repeat. -/
def add (read : List Symbol) (token : List Char) : Except SymbolListFault (List Symbol) :=
  let trimmed := Text.trimChars token
  if trimmed.isEmpty then .error .emptyToken
  else
    let symbol := Text.upper (String.ofList trimmed)
    if read.contains symbol then .error (.duplicate symbol) else .ok (read ++ [symbol])

def parse (input : String) : Except SymbolListFault (List Symbol) :=
  (Text.splitAt ',' input.toList).foldlM add []

end Symbols

/-! ### Coverage -/

/-- The symbols that have prices for some dates, and those that have none. -/
structure Coverage where
  symbols : List Symbol
  skipped : List Symbol
  deriving DecidableEq

namespace Coverage

variable {α : Type}

def isPriced (points : List (PricePoint α)) (symbol : Symbol) : Bool :=
  points.any fun p => p.symbol == symbol

/-- Keeps the symbols with a price from a week before `start` to `stop`; there has to be one. -/
def check (store : PriceStore α) (symbols : List Symbol) (start stop : Date) :
    Except (RunError α) Coverage := do
  let points ← liftStore (store.points (symbols.map fun s => ⟨s, start.back gapDays, stop⟩))
  let (covered, skipped) := symbols.partition (isPriced points)
  if covered.isEmpty then .error .noInputs else .ok ⟨covered, skipped⟩

end Coverage

end FactorPortfolio
