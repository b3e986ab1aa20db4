import FactorPortfolio.Decimal.Shortest

/-! # How decimals are laid out

`positional` writes digits with a point and as many zeros as it takes. `compact` always shows
that the number is not a count: a whole number keeps `.0`, and outside of `0.00001` to `10^16` a
signed exponent follows one digit before the point. `fixed` writes a set number of places of the
exact value, a half going to the even neighbour.
-/

namespace FactorPortfolio.Decimal

/-- Puts the point after the first `whole` digits, with zeros where there are none. -/
def withPoint (ds : List Char) (whole : Int) : List Char :=
  if whole ≤ 0 then '0' :: '.' :: List.replicate (-whole).toNat '0' ++ ds
  else ds.take whole.toNat ++ '.' :: ds.drop whole.toNat

/-- Digits without an exponent; a whole number has no point. -/
def positional (d : Number) : List Char :=
  let ds := digits d.units
  if 0 ≤ d.exponent then ds ++ List.replicate d.exponent.toNat '0'
  else withPoint ds (ds.length + d.exponent)

/-- The exponent of the leading digit. -/
def Number.magnitude (d : Number) : Int := (digits d.units).length - 1 + d.exponent

/-- Leading digit, point and further digits if any, and a signed exponent. -/
def scientific (d : Number) : List Char :=
  let mantissa := match digits d.units with
    | [] => []
    | [c] => [c]
    | c :: rest => c :: '.' :: rest
  let sign := if d.magnitude < 0 then '-' else '+'
  mantissa ++ 'e' :: sign :: digits d.magnitude.natAbs

/-- Positional with a fraction for magnitudes −5 to 15, scientific for the others. -/
def compact (d : Number) : List Char :=
  if -5 ≤ d.magnitude ∧ d.magnitude < 16 then
    if 0 ≤ d.exponent then positional d ++ ['.', '0'] else positional d
  else scientific d

/-- A quotient of naturals rounded to the nearest natural, a half to the even one. -/
def roundHalfEven (num den : Nat) : Nat :=
  let d := num / den
  match compare (2 * (num % den)) den with
  | .lt => d
  | .gt => d + 1
  | .eq => if d % 2 == 0 then d else d + 1

/-- The value with `places` digits after the point. -/
def fixed (places : Nat) (x : Binary) : List Char :=
  let n := roundHalfEven (x.m * power 2 x.q.toNat * power 10 places) (power 2 (-x.q).toNat)
  let ds := digits n
  let ds := List.replicate (places + 1 - ds.length) '0' ++ ds
  if places == 0 then ds else withPoint ds (ds.length - places)

end FactorPortfolio.Decimal
