import FactorPortfolio.Decimal.Digits
import FactorPortfolio.Formula.Expr
import FactorPortfolio.Market

/-! # Why a formula has no value

Values during evaluation are numbers and texts, a date being a text. `EvalError` lists what can
go wrong; `isMissingData` and `isInternalFault` are the two classes that scoring treats apart.
-/

namespace FactorPortfolio

inductive Value (α : Type) where
  | number (x : α)
  | text (s : String)

/-- A look-up in a price cache that found nothing. The flag tells whether it had been asked for
when the cache was loaded. -/
inductive CacheMiss where
  | price (symbol : Symbol) (date : Date) (requested : Bool)
  | stdev (symbol : Symbol) (start stop : Date) (requested : Bool)
  | fundamentals (symbol : Symbol) (date : Date)
  deriving DecidableEq

/-- What is no date: a text, or a date moved out of the calendar. -/
inductive DateFault where
  | text (s : String)
  | shift (date : Date) (years months days : Int)
  deriving DecidableEq

inductive Figure where
  | sharesOutstanding
  | eps
  | totalAssets
  | totalLiabilities
  deriving DecidableEq

inductive EvalError (α : Type) where
  | arity (f : Function) (found : Nat)
  | argumentType (f : Function) (index : Nat) (expected : ParamKind) (found : Value α)
  | invalidDate (fault : DateFault)
  | lookAhead (f : Function) (n : Int)
  | operandType (op : Operator) (found : Value α)
  | nonNumeric
  | nonFinite (x : α)
  /-- A figure, or the whole record where none is named, is not on file. -/
  | missingData (symbol : Symbol) (date : Date) (figure : Option Figure)
  | cacheMiss (miss : CacheMiss)

variable {α : Type} [Scalar α]

open Decimal

def Value.describe : Value α → String
  | .number x => "number " ++ Scalar.text x
  | .text s => "text '" ++ s ++ "'"

namespace CacheMiss

def message : CacheMiss → String
  | price symbol date _ => "no price for " ++ symbol ++ " on " ++ date.text
  | stdev symbol start stop _ =>
    "no volatility for " ++ symbol ++ " over " ++ start.text ++ ".." ++ stop.text
  | fundamentals symbol date =>
    "fundamentals for " ++ symbol ++ " on " ++ date.text ++ " were not loaded"

/-- The look-up was none of those that the cache was loaded for. -/
def isInternalFault : CacheMiss → Bool
  | price _ _ requested => !requested
  | stdev _ _ _ requested => !requested
  | fundamentals _ _ => true

end CacheMiss

def DateFault.message : DateFault → String
  | text s => s
  | shift date years months days =>
    date.text ++ " shifted by " ++ intText years ++ "y " ++ intText months ++ "m " ++
      intText days ++ "d"

def Figure.text : Figure → String
  | sharesOutstanding => "shares outstanding"
  | eps => "eps"
  | totalAssets => "total assets"
  | totalLiabilities => "total liabilities"

def Fundamentals.figure (r : Fundamentals α) : Figure → Option α
  | .sharesOutstanding => r.sharesOutstanding
  | .eps => r.eps
  | .totalAssets => r.totalAssets
  | .totalLiabilities => r.totalLiabilities

namespace EvalError

def message : EvalError α → String
  | arity f found =>
    f.name ++ " expects " ++ natText f.arity ++ " arguments, got " ++ natText found
  | argumentType f index expected found =>
    f.name ++ " argument " ++ natText index ++ ": expected " ++ expected.text ++ ", got " ++
      found.describe
  | invalidDate fault => "invalid date: " ++ fault.message
  | lookAhead f n => f.name ++ " cannot look ahead (n = " ++ intText n ++ ")"
  | operandType op found =>
    "operator '" ++ String.singleton op.symbol ++ "' needs numbers, got " ++ found.describe
  | nonNumeric => "formula produced a text value, not a number"
  | nonFinite x => "formula produced a non-finite value: " ++ Scalar.text x
  | missingData symbol date figure =>
    let reason := match figure with
      | none => "no fundamentals on file"
      | some f => "no " ++ f.text ++ " on file"
    "missing data for " ++ symbol ++ " on " ++ date.text ++ ": " ++ reason
  | cacheMiss miss => miss.message

def isMissingData : EvalError α → Bool
  | missingData _ _ _ => true
  | _ => false

def isInternalFault : EvalError α → Bool
  | cacheMiss miss => miss.isInternalFault
  | _ => false

end EvalError

end FactorPortfolio
