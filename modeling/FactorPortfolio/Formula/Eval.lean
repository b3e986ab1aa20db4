import FactorPortfolio.Calendar.Shift
import FactorPortfolio.Formula.Reading

/-! # Evaluation

A formula is evaluated for a symbol on a date by one walk from left to right. Dates are texts, so
a function that takes a date reads it back; whole numbers are cut to 64 bits. `evaluate` also asks
for a finite result, `evaluateUnchecked` does not.
-/

namespace FactorPortfolio

variable {α : Type} [Scalar α]

/-- An argument that has been read as its parameter asks. -/
inductive Argument where
  | date (d : Date)
  | integer (n : Int)

namespace Date

def parse (s : String) : Except DateFault Date :=
  match ofText? (Text.trim s) with
  | some d => .ok d
  | none => .error (.text s)

def shift (d : Date) (years months days : Int) : Except DateFault Date :=
  match d.shift? years months days with
  | some d' => .ok d'
  | none => .error (.shift d years months days)

end Date

namespace Expr

open Reading

def dateOf (r : Except DateFault Date) : Reading α Date := ofExcept (r.mapError .invalidDate)

def operand (op : Operator) : Value α → Reading α α
  | .number x => done x
  | v => failed (.operandType op v)

/-- Reads the `index`-th argument of `f` as its parameter asks. -/
def argument (f : Function) (index : Nat) (kind : ParamKind) (v : Value α) :
    Reading α Argument :=
  match kind, v with
  | .date, .text s => return .date (← dateOf (Date.parse s))
  | .integer, .number x =>
    match Scalar.whole? x with
    | some n => done (.integer (clampInt64 n))
    | none => failed (.argumentType f index kind v)
  | _, _ => failed (.argumentType f index kind v)

def required (symbol : Symbol) (date : Date) (figure : Figure) : Reading α α := do
  match ← askFundamentals symbol date with
  | none => failed (.missingData symbol date none)
  | some record =>
    match record.figure figure with
    | none => failed (.missingData symbol date (some figure))
    | some x => done x

/-- The date `n` units before `date`; a negative `n` would look ahead. -/
def ago (f : Function) (date : Date) (n years months days : Int) : Reading α (Value α) :=
  if n < 0 then failed (.lookAhead f n)
  else return .text (← dateOf (date.shift (-(n * years)) (-(n * months)) (-(n * days)))).text

def applyFunction (symbol : Symbol) (today : Date) (f : Function) (args : List Argument) :
    Reading α (Value α) :=
  match f, args with
  | .addDate, [.date d, .integer y, .integer m, .integer n] =>
    return .text (← dateOf (d.shift y m n)).text
  | .nDaysAgo, [.integer n] => ago f today n 0 0 1
  | .nMonthsAgo, [.integer n] => ago f today n 0 1 0
  | .nYearsAgo, [.integer n] => ago f today n 1 0 0
  | .price, [.date d] => return .number (← askPrice symbol d)
  | .pricePercentChange, [.date start, .date stop] => do
    let first ← askPrice symbol start
    let last ← askPrice symbol stop
    return .number (percentChange first last)
  | .stdev, [.date start, .date stop] => return .number (← askStdev symbol start stop)
  | .marketCap, [.date d] => do
    let shares ← required symbol d .sharesOutstanding
    let price ← askPrice symbol d
    return .number (shares * price)
  | .peRatio, [.date d] => do
    let eps ← required symbol d .eps
    let price ← askPrice symbol d
    return .number (price / eps)
  | .pbRatio, [.date d] => do
    let assets ← required symbol d .totalAssets
    let liabilities ← required symbol d .totalLiabilities
    let shares ← required symbol d .sharesOutstanding
    let price ← askPrice symbol d
    let bookPerShare := (assets - liabilities) / shares
    return .number (price / bookPerShare)
  | _, _ => failed (.arity f args.length)

mutual

def eval (symbol : Symbol) (today : Date) : Expr α → Reading α (Value α)
  | .number x => done (.number x)
  | .text s => done (.text s)
  | .currentDate => done (.text today.text)
  | .neg e => do
    let x ← operand .sub (← eval symbol today e)
    return .number (-x)
  | .binary op left right => do
    let x ← operand op (← eval symbol today left)
    let y ← operand op (← eval symbol today right)
    return .number (op.apply x y)
  | .call f args =>
    if args.length = f.arity then do
      applyFunction symbol today f (← evalArgs symbol today f 0 f.params args)
    else failed (.arity f args.length)

/-- Evaluates arguments from the `index`-th one on, each for its parameter. -/
def evalArgs (symbol : Symbol) (today : Date) (f : Function) (index : Nat)
    (kinds : List ParamKind) : List (Expr α) → Reading α (List Argument)
  | [] => done []
  | e :: rest =>
    match kinds with
    | [] => done []
    | kind :: kinds => do
      let a ← argument f index kind (← eval symbol today e)
      return a :: (← evalArgs symbol today f (index + 1) kinds rest)

end

end Expr

namespace Formula

open Reading

/-- The value of a formula, finite or not. -/
def evaluateUnchecked (formula : Formula α) (symbol : Symbol) (date : Date) : Reading α α := do
  match ← formula.tree.eval symbol date with
  | .number x => done x
  | .text _ => failed .nonNumeric

/-- The value of a formula, which has to be finite. -/
def evaluate (formula : Formula α) (symbol : Symbol) (date : Date) : Reading α α := do
  let x ← formula.evaluateUnchecked symbol date
  if Scalar.isFinite x then done x else failed (.nonFinite x)

end Formula

end FactorPortfolio
