import FactorPortfolio.Decimal.Digits

/-! # Reading numbers

A number is an optional sign and either one of the words `inf`, `infinity` and `nan` in any case
or digits with at most one point and an optional exponent, with at least one digit before it.
-/

namespace FactorPortfolio.Decimal

/-- A number as it is written: `digits * 10 ^ exponent`, an infinity, or not a number. -/
inductive Numeral where
  | finite (negative : Bool) (digits : Nat) (exponent : Int)
  | infinite (negative : Bool)
  | nan
  deriving DecidableEq

/-- An optional sign; `true` for a minus. -/
def readSign : List Char → Bool × List Char
  | '-' :: rest => (true, rest)
  | '+' :: rest => (false, rest)
  | cs => (false, cs)

def readInt? (cs : List Char) : Option Int :=
  let (negative, ds) := readSign cs
  if ds.isEmpty || !ds.all Text.isDigit then none
  else some (if negative then -(ofDigits ds : Int) else ofDigits ds)

/-- The exponent part that ends a number; none counts as zero. -/
def readExponent? : List Char → Option Int
  | [] => some 0
  | c :: rest => if c == 'e' || c == 'E' then readInt? rest else none

/-- Digits with at most one point, then an exponent. -/
def readMagnitude? (negative : Bool) (cs : List Char) : Option Numeral :=
  let whole := cs.takeWhile Text.isDigit
  let afterWhole := cs.drop whole.length
  let (fraction, rest) := match afterWhole with
    | '.' :: more => (more.takeWhile Text.isDigit, more.dropWhile Text.isDigit)
    | _ => ([], afterWhole)
  if whole.isEmpty && fraction.isEmpty then none
  else (readExponent? rest).map fun e =>
    .finite negative (ofDigits (whole ++ fraction)) (e - fraction.length)

def readNumeral? (s : String) : Option Numeral :=
  let (negative, cs) := readSign s.toList
  let word := String.ofList (cs.map Char.toLower)
  if word == "inf" || word == "infinity" then some (.infinite negative)
  else if word == "nan" then some .nan
  else readMagnitude? negative cs

def readInt64? (s : String) : Option Int :=
  (readInt? s.toList).filter fun n => -9223372036854775808 ≤ n && n ≤ 9223372036854775807

end FactorPortfolio.Decimal
