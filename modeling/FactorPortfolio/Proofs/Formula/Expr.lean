import FactorPortfolio.Formula.Expr
import Mathlib.Tactic.Common

/-!
# Conditions on the shape of a formula

A condition on formulas mostly forbids some nodes wherever they stand: `Expr.every p` asks `p` of
every node.  The four conditions that decide how a formula is to be scored are of this form.

* `isSilent`: no function that reads market data is called.
* `hasFixedDates`: where a date is moved, the move is silent, so that no date depends on data.
* `isWithoutStdev`: no volatility is asked for.
* `looksBack`: there is no date but today and what lies before it.

`Expr.nodes` lists the nodes, where a condition is not a test.  `Expr.ind` is the induction over a
formula in which all arguments of a call are smaller.
-/

namespace FactorPortfolio

/-- Functions that make a date out of numbers; all others read market data. -/
def Function.movesDate : Function → Bool
  | addDate | nDaysAgo | nMonthsAgo | nYearsAgo => true
  | price | pricePercentChange | stdev | marketCap | peRatio | pbRatio => false

namespace Expr

variable {α : Type}

@[elab_as_elim]
theorem ind {motive : Expr α → Prop} (number : ∀ x, motive (number x))
    (text : ∀ s, motive (text s)) (currentDate : motive currentDate)
    (neg : ∀ e, motive e → motive (neg e))
    (binary : ∀ op l r, motive l → motive r → motive (binary op l r))
    (call : ∀ f args, (∀ e ∈ args, motive e) → motive (call f args)) (e : Expr α) : motive e :=
  Expr.rec (motive_1 := motive) (motive_2 := fun args => ∀ e ∈ args, motive e)
    number text currentDate neg binary call (fun _ h => nomatch h)
    (fun _ _ hhead htail e he => (List.mem_cons.1 he).elim (fun h => h ▸ hhead) (htail e)) e

mutual

/-- Whether every node of a formula passes a test. -/
def every (p : Expr α → Bool) : Expr α → Bool
  | number x => p (number x)
  | text s => p (text s)
  | currentDate => p currentDate
  | neg e => p (neg e) && every p e
  | binary op l r => p (binary op l r) && every p l && every p r
  | call f args => p (call f args) && everyOf p args

def everyOf (p : Expr α → Bool) : List (Expr α) → Bool
  | [] => true
  | e :: rest => every p e && everyOf p rest

end

theorem everyOf_iff {p : Expr α → Bool} {args : List (Expr α)} :
    everyOf p args = true ↔ ∀ e ∈ args, every p e = true := by
  induction args with
  | nil => simp [everyOf]
  | cons e rest ih => simp [everyOf, ih]

theorem every_call {p : Expr α → Bool} {f : Function} {args : List (Expr α)} :
    every p (call f args) = true ↔
      p (call f args) = true ∧ ∀ e ∈ args, every p e = true := by
  rw [every, Bool.and_eq_true, everyOf_iff]

mutual

def nodes : Expr α → List (Expr α)
  | number x => [number x]
  | text s => [text s]
  | currentDate => [currentDate]
  | neg e => neg e :: nodes e
  | binary op l r => binary op l r :: (nodes l ++ nodes r)
  | call f args => call f args :: nodesOf args

def nodesOf : List (Expr α) → List (Expr α)
  | [] => []
  | e :: rest => nodes e ++ nodesOf rest

end

theorem mem_nodesOf {n : Expr α} {args : List (Expr α)} :
    n ∈ nodesOf args ↔ ∃ e ∈ args, n ∈ nodes e := by
  induction args with
  | nil => simp [nodesOf]
  | cons e rest ih => simp [nodesOf, ih]

/-- No minus stands in front of a number. -/
def IsFolded (e : Expr α) : Prop := ∀ x, neg (number x) ∉ e.nodes

def isSilent : Expr α → Bool :=
  every fun
    | call f _ => f.movesDate
    | _ => true

/-- No market data is asked for inside of a function that moves a date. -/
def hasFixedDates : Expr α → Bool :=
  every fun
    | call f args => !f.movesDate || args.all isSilent
    | _ => true

def isWithoutStdev : Expr α → Bool :=
  every fun
    | call .stdev _ => false
    | _ => true

/-- Dates come from today alone, and only by going back. -/
def looksBack : Expr α → Bool :=
  every fun
    | call .addDate _ => false
    | text _ => false
    | _ => true

end Expr

end FactorPortfolio
