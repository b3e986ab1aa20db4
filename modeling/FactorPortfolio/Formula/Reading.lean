import FactorPortfolio.Formula.Fault

/-! # Readings

A reading is a computation that asks for market data: it ends with a value or a fault, or it asks
for one price, volatility or record and goes on with the answer. A formula is evaluated to a
reading once, and whoever has the answers runs it: `run` asks a source, and the dry run writes the
questions down.
-/

namespace FactorPortfolio

inductive Reading (α β : Type) where
  | done (value : β)
  | failed (e : EvalError α)
  | price (symbol : Symbol) (date : Date) (next : α → Reading α β)
  | stdev (symbol : Symbol) (start stop : Date) (next : α → Reading α β)
  | fundamentals (symbol : Symbol) (date : Date) (next : Option (Fundamentals α) → Reading α β)

structure MetricSource (α : Type) where
  price : Symbol → Date → Except (EvalError α) α
  /-- The annualised deviation of daily returns from one date to another. -/
  stdev : Symbol → Date → Date → Except (EvalError α) α
  /-- The record in force on a date, if there is one. -/
  fundamentals : Symbol → Date → Except (EvalError α) (Option (Fundamentals α))

namespace Reading

variable {α β γ : Type}

def bind : Reading α β → (β → Reading α γ) → Reading α γ
  | done v, f => f v
  | failed e, _ => failed e
  | price symbol date next, f => price symbol date fun x => (next x).bind f
  | stdev symbol start stop next, f => stdev symbol start stop fun x => (next x).bind f
  | fundamentals symbol date next, f => fundamentals symbol date fun r => (next r).bind f

instance : Monad (Reading α) where
  pure := done
  bind := bind

def askPrice (symbol : Symbol) (date : Date) : Reading α α := price symbol date done

def askStdev (symbol : Symbol) (start stop : Date) : Reading α α := stdev symbol start stop done

def askFundamentals (symbol : Symbol) (date : Date) : Reading α (Option (Fundamentals α)) :=
  fundamentals symbol date done

def ofExcept : Except (EvalError α) β → Reading α β
  | .ok v => done v
  | .error e => failed e

def run (source : MetricSource α) : Reading α β → Except (EvalError α) β
  | done v => .ok v
  | failed e => .error e
  | price symbol date next =>
    match source.price symbol date with
    | .ok x => (next x).run source
    | .error e => .error e
  | stdev symbol start stop next =>
    match source.stdev symbol start stop with
    | .ok x => (next x).run source
    | .error e => .error e
  | fundamentals symbol date next =>
    match source.fundamentals symbol date with
    | .ok r => (next r).run source
    | .error e => .error e

@[simp] theorem run_bind (source : MetricSource α) (r : Reading α β) (f : β → Reading α γ) :
    (r.bind f).run source = (r.run source).bind fun v => (f v).run source := by
  induction r with
  | done v => rfl
  | failed e => rfl
  | price symbol date next ih =>
    simp only [bind, run]
    cases source.price symbol date with
    | ok x => exact ih x
    | error e => rfl
  | stdev symbol start stop next ih =>
    simp only [bind, run]
    cases source.stdev symbol start stop with
    | ok x => exact ih x
    | error e => rfl
  | fundamentals symbol date next ih =>
    simp only [bind, run]
    cases source.fundamentals symbol date with
    | ok x => exact ih x
    | error e => rfl

end Reading

end FactorPortfolio
