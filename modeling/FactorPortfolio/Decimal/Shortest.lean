import FactorPortfolio.Decimal.Digits

/-! # The shortest decimal of a binary number

A binary number `m * 2 ^ q` stands for all reals that lie nearer to it than to its neighbours. The
shortest decimal is the one with the fewest digits among those reals, and of several the nearest.
The search goes through the grids of 1 to 17 digits and tests the two points of each grid beside
the value; all comparisons are of naturals.
-/

namespace FactorPortfolio.Decimal

/-- The number `m * 2 ^ q` among binary numbers of 53 digits. The gap to the number below is half
the gap to the one above when `narrowBelow` holds. -/
structure Binary where
  m : Nat
  q : Int
  narrowBelow : Bool

/-- The decimal `units * 10 ^ exponent`. -/
structure Number where
  units : Nat
  exponent : Int
  deriving DecidableEq

inductive Tie where
  | toEven
  | up

def compareScaled (a : Nat) (i : Int) (n : Nat) (j : Int) : Ordering :=
  compare (a * power 10 i.toNat * power 2 (-j).toNat)
    (n * power 2 j.toNat * power 10 (-i).toNat)

namespace Binary

/-- The finite number of some binary64 bits, without its sign. -/
def ofBits (bits : UInt64) : Binary :=
  let exponent := ((bits >>> 52) &&& 0x7FF).toNat
  let fraction := (bits &&& 0xFFFFFFFFFFFFF).toNat
  if exponent == 0 then ⟨fraction, -1074, false⟩
  else ⟨power 2 52 + fraction, (exponent : Int) - 1075, fraction == 0 && exponent > 1⟩

/-- Whether `d` is among the reals that `x` stands for; the ends of the interval belong to it
when `m` is even. -/
def standsFor (x : Binary) (d : Number) : Bool :=
  let low := if x.narrowBelow then 4 * x.m - 1 else 4 * x.m - 2
  let high := 4 * x.m + 2
  let ends := x.m % 2 == 0
  let fromLow := compareScaled d.units d.exponent low (x.q - 2)
  let fromHigh := compareScaled d.units d.exponent high (x.q - 2)
  (fromLow == .gt || (ends && fromLow == .eq)) && (fromHigh == .lt || (ends && fromHigh == .eq))

/-- The least `k` with `x < 10 ^ k`, found near an estimate from the count of binary digits. -/
def scale (x : Binary) : Int :=
  let estimate := ((x.m.log2 : Int) + x.q) * 30103 / 100000
  let exceeds (k : Int) : Bool := compareScaled 1 k x.m x.q == .gt
  if exceeds estimate then estimate
  else if exceeds (estimate + 1) then estimate + 1
  else estimate + 2

def quotient (x : Binary) (g : Int) : Nat :=
  (x.m * power 2 x.q.toNat * power 10 (-g).toNat) / (power 2 (-x.q).toNat * power 10 g.toNat)

/-- The better of the two points of the grid `10 ^ g` beside `x`, if one of them stands for it. -/
def nearestOn (x : Binary) (tie : Tie) (g : Int) : Option Number :=
  let d := x.quotient g
  let below : Number := ⟨d, g⟩
  let above : Number := ⟨d + 1, g⟩
  match x.standsFor below, x.standsFor above with
  | false, false => none
  | true, false => some below
  | false, true => some above
  | true, true =>
    match compareScaled (2 * d + 1) g (2 * x.m) x.q with
    | .gt => some below
    | .lt => some above
    | .eq =>
      match tie with
      | .up => some above
      | .toEven => if d % 2 == 0 then some below else some above

def exact (x : Binary) : Number :=
  if 0 ≤ x.q then ⟨x.m * power 2 x.q.toNat, 0⟩ else ⟨x.m * power 5 x.q.natAbs, x.q⟩

end Binary

/-- Moves zeros at the end of the units into the exponent. -/
def Number.strip (d : Number) : Number :=
  if h : d.units % 10 = 0 ∧ 0 < d.units then strip ⟨d.units / 10, d.exponent + 1⟩ else d
termination_by d.units
decreasing_by omega

/-- The shortest decimal of a number other than zero. -/
def Binary.shortest (x : Binary) (tie : Tie) : Number :=
  let k := x.scale
  let found := (List.range 17).findSome? fun (n : Nat) => x.nearestOn tie (k - 1 - n)
  (found.getD x.exact).strip

end FactorPortfolio.Decimal
