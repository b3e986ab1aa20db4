import FactorPortfolio.Scalar.Statistics
import FactorPortfolio.Decimal.Layout
import FactorPortfolio.Decimal.Read

/-! # Binary64 as scalars

The arithmetic of `Float`, with rounding to whole numbers and the decimal texts computed from the
bits. Messages show the shortest decimal that reads back, without an exponent; of two equally
short and near decimals the upper one.
-/

namespace FactorPortfolio.Binary64

open Decimal

def isNegative (x : Float) : Bool := x.toBits >>> 63 == 1

/-- The value of a finite number without its sign. -/
def binary (x : Float) : Binary := .ofBits x.toBits

def whole? (x : Float) : Option Int :=
  if !x.isFinite then none
  else
    let d := binary x
    let sign : Int := if isNegative x then -1 else 1
    if 0 ≤ d.q then some (sign * (d.m * power 2 d.q.toNat : Nat))
    else if d.m % power 2 d.q.natAbs == 0 then some (sign * (d.m / power 2 d.q.natAbs : Nat))
    else none

/-- The nearest whole number, a half going away from zero; the sign of the number is kept. -/
def round (x : Float) : Float :=
  let d := binary x
  if 0 ≤ d.q then x
  else
    let unit := power 2 d.q.natAbs
    let n := Float.ofNat ((2 * d.m + unit) / (2 * unit))
    if isNegative x then -n else n

/-- Lays out the size of a finite number and puts its sign in front. -/
def signed (x : Float) (size : List Char) : String :=
  String.ofList (if isNegative x then '-' :: size else size)

def special (x : Float) : String :=
  if x.isNaN then "NaN" else if isNegative x then "-inf" else "inf"

def text (x : Float) : String :=
  if !x.isFinite then special x
  else
    let d := binary x
    if d.m == 0 then signed x ['0'] else signed x (positional (d.shortest .up))

def fixed (places : Nat) (x : Float) : String :=
  if !x.isFinite then special x else signed x (Decimal.fixed places (binary x))

/-- The shortest decimal with a fraction or an exponent; of two equally short and near decimals
the even one. -/
def compactText (x : Float) : String :=
  let d := binary x
  if d.m == 0 then signed x ['0', '.', '0'] else signed x (compact (d.shortest .toEven))

/-- The number nearest to what a numeral writes. Exponents that lead out of the range of
binary64 whatever the digits are give an infinity or zero. -/
def ofNumeral : Numeral → Float
  | .nan => 0.0 / 0.0
  | .infinite negative => if negative then -(1.0 / 0.0) else 1.0 / 0.0
  | .finite negative ds exponent =>
    let size : Float :=
      if ds == 0 then 0.0
      else
        let magnitude : Int := (Decimal.digits ds).length + exponent
        if magnitude > 400 then 1.0 / 0.0
        else if magnitude < -400 then 0.0
        else Float.ofScientific ds (exponent < 0) exponent.natAbs
    if negative then -size else size

def read? (s : String) : Option Float := (readNumeral? s).map ofNumeral

instance : Scalar Float where
  natCast := Float.ofNat
  ofScientific := Float.ofScientific
  decLt := inferInstanceAs (DecidableLT Float)
  decLe := inferInstanceAs (DecidableLE Float)
  isFinite := Float.isFinite
  isNaN := Float.isNaN
  abs := Float.abs
  sqrt := Float.sqrt
  pow := Float.pow
  round := round
  whole? := whole?
  text := text
  fixed := fixed

end FactorPortfolio.Binary64
