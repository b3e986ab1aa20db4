import FactorPortfolio.Scalar.Statistics

/-! # Formulas

A formula is arithmetic over numbers, texts, the variable `currentDate` and calls of a fixed set
of functions. `Function.all` lists the functions, `Function.params` says what each takes.
-/

namespace FactorPortfolio

inductive ParamKind where
  /-- A date as text. -/
  | date
  /-- A whole number. -/
  | integer
  deriving DecidableEq

def ParamKind.text : ParamKind → String
  | .date => "date"
  | .integer => "integer"

inductive Function where
  | addDate
  | nDaysAgo
  | nMonthsAgo
  | nYearsAgo
  | price
  | pricePercentChange
  | stdev
  | marketCap
  | peRatio
  | pbRatio
  deriving DecidableEq

namespace Function

def all : List Function :=
  [addDate, nDaysAgo, nMonthsAgo, nYearsAgo, price, pricePercentChange, stdev, marketCap, peRatio,
    pbRatio]

def name : Function → String
  | addDate => "addDate"
  | nDaysAgo => "nDaysAgo"
  | nMonthsAgo => "nMonthsAgo"
  | nYearsAgo => "nYearsAgo"
  | price => "price"
  | pricePercentChange => "pricePercentChange"
  | stdev => "stdev"
  | marketCap => "marketCap"
  | peRatio => "peRatio"
  | pbRatio => "pbRatio"

def ofName? (s : String) : Option Function := all.find? fun f => f.name == s

def params : Function → List ParamKind
  | addDate => [.date, .integer, .integer, .integer]
  | nDaysAgo => [.integer]
  | nMonthsAgo => [.integer]
  | nYearsAgo => [.integer]
  | price => [.date]
  | pricePercentChange => [.date, .date]
  | stdev => [.date, .date]
  | marketCap => [.date]
  | peRatio => [.date]
  | pbRatio => [.date]

def arity (f : Function) : Nat := f.params.length

theorem mem_all (f : Function) : f ∈ all := by cases f <;> decide

end Function

inductive Operator where
  | add
  | sub
  | mul
  | div
  deriving DecidableEq

namespace Operator

def symbol : Operator → Char
  | add => '+'
  | sub => '-'
  | mul => '*'
  | div => '/'

def apply {α : Type} [Scalar α] (op : Operator) (x y : α) : α :=
  match op with
  | add => x + y
  | sub => x - y
  | mul => x * y
  | div => x / y

end Operator

inductive Expr (α : Type) where
  | number (value : α)
  | text (content : String)
  | currentDate
  | neg (e : Expr α)
  | binary (op : Operator) (left right : Expr α)
  | call (f : Function) (args : List (Expr α))

namespace Expr

variable {α : Type} [Scalar α]

def currentDateName : String := "currentDate"

/-- A minus in front of a number literal is part of the literal. -/
def negate : Expr α → Expr α
  | number x => number (-x)
  | e => neg e

mutual

/-- A formula as text, with brackets around every operation. -/
def render : Expr α → String
  | number x => Scalar.text x
  | text s => "\"" ++ s ++ "\""
  | currentDate => currentDateName
  | neg e => "-" ++ render e
  | binary op l r => "(" ++ render l ++ " " ++ String.singleton op.symbol ++ " " ++ render r ++ ")"
  | call f args => f.name ++ "(" ++ renderArgs args ++ ")"

def renderArgs : List (Expr α) → String
  | [] => ""
  | e :: rest => match rest with
    | [] => render e
    | _ => render e ++ ", " ++ renderArgs rest

end

end Expr

structure Formula (α : Type) where
  source : String
  tree : Expr α

end FactorPortfolio
