import FactorPortfolio.Text.Letters

/-! # Digit strings

Naturals as decimal digits: `digits` writes without leading zeros, `ofDigits` reads, `padded`
fills up with zeros on the left.
-/

namespace FactorPortfolio.Decimal

/-- What a digit in place `n` counts, in a system with the given base. -/
def power (base n : Nat) : Nat := base.pow n

def digitChar (n : Nat) : Char := Char.ofNat (48 + n % 10)

def digitValue (c : Char) : Nat := c.toNat - 48

/-- The decimal digits of a number, without leading zeros. -/
def digits (n : Nat) : List Char :=
  if _h : n < 10 then [digitChar n] else digits (n / 10) ++ [digitChar n]
termination_by n
decreasing_by omega

def ofDigits (ds : List Char) : Nat := ds.foldl (fun n c => 10 * n + digitValue c) 0

/-- The digits of a number with zeros in front up to a width. -/
def padded (width : Nat) (n : Nat) : String :=
  let ds := digits n
  String.ofList (List.replicate (width - ds.length) '0' ++ ds)

def natText (n : Nat) : String := String.ofList (digits n)

def intText (n : Int) : String := if n < 0 then "-" ++ natText n.natAbs else natText n.natAbs

end FactorPortfolio.Decimal
