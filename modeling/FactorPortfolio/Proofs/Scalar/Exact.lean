import Mathlib.Data.Rat.Floor
import Mathlib.Data.Rat.Sqrt
import Mathlib.Tactic.Linarith
import Mathlib.Tactic.Order
import FactorPortfolio.Scalar.Statistics

/-!
# Exact arithmetic

An ordered field with a floor computes exactly: its numbers are all finite, and rounding to a whole
number is the only operation that rounds.  Roots, powers and texts are taken as they are given
(`InexactFunctions`); what is proved of sums, weights and quantities does not depend on them.

* `sum_eq_sum`, `min_eq_min`, `max_eq_max`: the operations of a scalar are those of the field.
* `round_eq_iff`: rounding gives the nearest whole number, and of two that are as near the one
  farther from zero.
-/

namespace FactorPortfolio

/-- Functions that leave an ordered field, or write its numbers down. -/
class InexactFunctions (α : Type) where
  sqrt : α → α
  pow : α → α → α
  text : α → String
  fixed : Nat → α → String

/-- Of fractions: roots of squares, powers with whole exponents, and texts as they are displayed. -/
instance : InexactFunctions ℚ where
  sqrt := Rat.sqrt
  pow x y := x ^ ⌊y⌋
  text x := toString x
  fixed _ x := toString x

namespace Exact

variable {α : Type} [Field α] [LinearOrder α] [FloorRing α]

/-- The nearest whole number, a half going away from zero. -/
def round (x : α) : α := if 0 ≤ x then (⌊x + 1 / 2⌋ : α) else -(⌊-x + 1 / 2⌋ : α)

instance scalar [InexactFunctions α] : Scalar α where
  toOfScientific := inferInstance
  toNatCast := inferInstance
  toBEq := instBEqOfDecidableEq
  decLt := inferInstance
  decLe := inferInstance
  isFinite _ := true
  isNaN _ := false
  abs x := |x|
  sqrt := InexactFunctions.sqrt
  pow := InexactFunctions.pow
  round := round
  whole? x := if (⌊x⌋ : α) = x then some ⌊x⌋ else none
  text := InexactFunctions.text
  fixed := InexactFunctions.fixed

section

variable [InexactFunctions α]

theorem zero_eq : (0.0 : α) = 0 := by norm_num

@[simp] theorem isNaN_eq (x : α) : Scalar.isNaN x = false := rfl

theorem min_eq_min (a b : α) : Scalar.min a b = min a b := by
  rw [Scalar.min, if_neg (by simp), if_neg (by simp), min_def]
  split <;> split <;> order

theorem max_eq_max (a b : α) : Scalar.max a b = max a b := by
  rw [Scalar.max, if_neg (by simp), if_neg (by simp), max_def]
  split <;> split <;> order

theorem sum_eq_sum (xs : List α) : Scalar.sum xs = xs.sum := by
  rw [Scalar.sum, List.sum_eq_foldl]
  norm_num

theorem mean_eq (xs : List α) : Scalar.mean xs = xs.sum / xs.length := by
  rw [Scalar.mean, sum_eq_sum]

end

variable [IsStrictOrderedRing α]

/-- A nearest whole number of `x`; of two that are as near it is the one farther from zero. -/
structure Rounds (x y : α) : Prop where
  whole : ∃ n : ℤ, y = n
  near : |y - x| ≤ 1 / 2
  away : |y - x| = 1 / 2 → |x| < |y|

variable {x y y' : α}

omit [FloorRing α] [IsStrictOrderedRing α] in
theorem Rounds.neg (h : Rounds x y) : Rounds (-x) (-y) := by
  obtain ⟨n, rfl⟩ := h.whole
  have heq : |-(n : α) - -x| = |(n : α) - x| := by rw [neg_sub_neg, abs_sub_comm]
  refine ⟨⟨-n, (Int.cast_neg n).symm⟩, ?_, ?_⟩
  · rw [heq]
    exact h.near
  · rw [heq, abs_neg, abs_neg]
    exact h.away

theorem rounds_floor (h : 0 ≤ x) : Rounds x (⌊x + 1 / 2⌋ : α) := by
  have hle := Int.floor_le (x + 1 / 2)
  have hlt := Int.lt_floor_add_one (x + 1 / 2)
  refine ⟨⟨_, rfl⟩, abs_le.2 ⟨by linarith, by linarith⟩, fun htie => ?_⟩
  -- the floor is less than a half below, so that it is half above
  have habove : (⌊x + 1 / 2⌋ : α) - x = 1 / 2 := by
    rcases abs_choice ((⌊x + 1 / 2⌋ : α) - x) with heq | heq <;> linarith
  rw [abs_of_nonneg h]
  exact lt_of_lt_of_le (by linarith) (le_abs_self _)

theorem rounds_round (x : α) : Rounds x (round x) := by
  rw [round]
  split
  · exact rounds_floor ‹_›
  · have hneg := (rounds_floor (by linarith : 0 ≤ -x)).neg
    rwa [neg_neg] at hneg

omit [FloorRing α] in
/-- A number does not round to the lesser of two whole numbers and to the greater as well. -/
theorem Rounds.le (h : Rounds x y) (h' : Rounds x y') : y' ≤ y := by
  obtain ⟨m, rfl⟩ := h.whole
  obtain ⟨n, rfl⟩ := h'.whole
  by_contra hlt
  have hstep : (m : α) + 1 ≤ n := by exact_mod_cast Int.add_one_le_iff.2 (by simpa using hlt)
  have hlow := (abs_le.1 h.near).1
  have hhigh := (abs_le.1 h'.near).2
  -- they are neighbours, and the number lies in the middle
  have hn : (n : α) = m + 1 := by linarith
  have hx : x = m + 1 / 2 := by linarith
  have hm := h.away (by rw [hx, sub_add_cancel_left, abs_neg, abs_of_pos one_half_pos])
  have hn' := h'.away (by rw [hn, hx, add_sub_add_left_eq_sub]; norm_num)
  rw [hx] at hm hn'
  rw [hn] at hn'
  rcases le_or_gt 0 m with hsign | hsign
  · have hnonneg : (0 : α) ≤ m := by exact_mod_cast hsign
    rw [abs_of_nonneg (by linarith), abs_of_nonneg hnonneg] at hm
    linarith
  · have hneg : (m : α) + 1 ≤ 0 := by exact_mod_cast Int.add_one_le_iff.2 hsign
    rw [abs_of_neg (by linarith), abs_of_nonpos hneg] at hn'
    linarith

theorem round_eq_iff : round x = y ↔ Rounds x y := by
  constructor
  · rintro rfl
    exact rounds_round x
  · exact fun h => le_antisymm (h.le (rounds_round x)) ((rounds_round x).le h)

end Exact

end FactorPortfolio
