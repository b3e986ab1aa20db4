import Mathlib.Algebra.Order.Field.Power
import Mathlib.Data.Int.Log
import Mathlib.Data.Rat.Floor
import Mathlib.Tactic.Linarith
import Mathlib.Tactic.Positivity

/-!
# Nearest numbers of 53 bits

Numbers of binary64 without a greatest exponent: `Representable` is what up to 53 bits and an
exponent of at least -1074 write. Rounding a number `v` gives a `Nearest` one. What arithmetic
needs of that is that representable numbers are kept (`Nearest.eq`), that rounding does not jump
over a representable number (`Nearest.ge`, `Nearest.le`), and that it is off by no more than the
`2 ^ 53`th part of `v` or half the least positive number (`Nearest.error`).
-/

namespace FactorPortfolio.Binary64

def Representable (a : ℚ) : Prop := ∃ k E : ℤ, |k| ≤ 2 ^ 53 ∧ -1074 ≤ E ∧ a = k * 2 ^ E

/-- No representable number is nearer to `v` than `r`. -/
structure Nearest (v r : ℚ) : Prop where
  representable : Representable r
  le_abs : ∀ a, Representable a → |r - v| ≤ |a - v|

theorem two_zpow_pos (e : ℤ) : (0 : ℚ) < 2 ^ e := zpow_pos two_pos e

theorem two_zpow_le {e f : ℤ} (h : e ≤ f) : (2 : ℚ) ^ e ≤ 2 ^ f :=
  zpow_le_zpow_right₀ one_le_two h

theorem two_zpow_split {e f g : ℤ} (h : e = f + g) : (2 : ℚ) ^ e = 2 ^ f * 2 ^ g := by
  rw [h, zpow_add₀ two_ne_zero]

/-! ### Representable numbers -/

theorem representable_intCast {k : ℤ} (h : |k| ≤ 2 ^ 53) : Representable k :=
  ⟨k, 0, h, by decide, by simp⟩

theorem representable_natCast {n : ℕ} (h : n ≤ 2 ^ 53) : Representable n := by
  simpa using representable_intCast (k := n) (by rw [abs_of_nonneg] <;> omega)

theorem representable_two_zpow {e : ℤ} (h : -1074 ≤ e) : Representable (2 ^ e) :=
  ⟨1, e, by decide, h, by rw [Int.cast_one, one_mul]⟩

theorem representable_zero : Representable 0 := by
  simpa using representable_natCast (n := 0) (by decide)

theorem representable_one : Representable 1 := by
  simpa using representable_natCast (n := 1) (by decide)

theorem Representable.neg {a : ℚ} : Representable a → Representable (-a)
  | ⟨k, E, hk, hE, h⟩ => ⟨-k, E, by rwa [abs_neg], hE, by rw [h]; push_cast; ring⟩

theorem Representable.exists_multiple {a : ℚ} (h : Representable a) :
    ∃ k : ℤ, a = k * 2 ^ (-1074 : ℤ) := by
  obtain ⟨k, E, -, hE, rfl⟩ := h
  obtain ⟨d, hd⟩ := Int.eq_ofNat_of_zero_le (show 0 ≤ E + 1074 by omega)
  refine ⟨k * 2 ^ d, ?_⟩
  rw [two_zpow_split (show E = d + -1074 by omega), zpow_natCast, ← mul_assoc, Int.cast_mul,
    Int.cast_pow, Int.cast_ofNat]

theorem Representable.nearest {a : ℚ} (h : Representable a) : Nearest a a :=
  ⟨h, fun b _ => by rw [sub_self, abs_zero]; exact abs_nonneg _⟩

theorem Representable.least_le {a : ℚ} (h : Representable a) (hpos : 0 < a) :
    2 ^ (-1074 : ℤ) ≤ a := by
  obtain ⟨k, rfl⟩ := h.exists_multiple
  have hk : 0 < (k : ℚ) := pos_of_mul_pos_left hpos (two_zpow_pos _).le
  have hk' : (1 : ℚ) ≤ k := by exact_mod_cast hk
  exact le_mul_of_one_le_left (two_zpow_pos _).le hk'

/-! ### The grid around a number -/

/-- The spacing of the representable numbers around `v`. -/
theorem exists_spacing (v : ℚ) :
    ∃ q : ℤ, -1074 ≤ q ∧ |v| < 2 ^ (q + 53) ∧ (q = -1074 ∨ 2 ^ (q + 52) ≤ |v|) := by
  rcases eq_or_ne v 0 with rfl | hv
  · exact ⟨-1074, le_rfl, by rw [abs_zero]; exact two_zpow_pos (-1074 + 53), .inl rfl⟩
  have hlow : (2 : ℚ) ^ Int.log 2 |v| ≤ |v| := by
    exact_mod_cast Int.zpow_log_le_self (by decide : 1 < 2) (abs_pos.2 hv)
  have hhigh : |v| < (2 : ℚ) ^ (Int.log 2 |v| + 1) := by
    exact_mod_cast Int.lt_zpow_succ_log_self (by decide : 1 < 2) |v|
  refine ⟨max (Int.log 2 |v| - 52) (-1074), le_max_right .., ?_, ?_⟩
  · exact hhigh.trans_le (two_zpow_le (by omega))
  · rcases le_total (Int.log 2 |v| - 52) (-1074) with h | h
    · exact .inl (max_eq_right h)
    · rw [max_eq_left h, sub_add_cancel]
      exact .inr hlow

/-- What is off by half the spacing at most is as near as any number on the grid. -/
theorem abs_sub_le_of_grid {v : ℚ} {K q : ℤ} (h : |K * 2 ^ q - v| ≤ 2 ^ (q - 1)) (j : ℤ) :
    |(K : ℚ) * 2 ^ q - v| ≤ |(j : ℚ) * 2 ^ q - v| := by
  rcases eq_or_ne j K with rfl | hj
  · exact le_rfl
  have hone : (1 : ℚ) ≤ |(j : ℚ) - K| := by
    exact_mod_cast Int.one_le_abs (sub_ne_zero.2 hj)
  have hspacing : (2 : ℚ) ^ q ≤ |(j : ℚ) * 2 ^ q - K * 2 ^ q| := by
    rw [← sub_mul, abs_mul, abs_of_pos (two_zpow_pos q)]
    exact le_mul_of_one_le_left (two_zpow_pos q).le hone
  have htriangle := abs_sub_le ((j : ℚ) * 2 ^ q) v (K * 2 ^ q)
  have hhalf : (2 : ℚ) ^ q = 2 ^ (q - 1) + 2 ^ (q - 1) := by
    rw [two_zpow_split (show q = (q - 1) + 1 by omega)]
    ring_nf
  rw [abs_sub_comm v] at htriangle
  linarith

/-- What is no larger than the least number of 53 bits is further away than the nearest point of
the grid. -/
theorem abs_sub_le_of_grid_of_le {a v : ℚ} {K q : ℤ} (h : |K * 2 ^ q - v| ≤ 2 ^ (q - 1))
    (ha : |a| ≤ 2 ^ (q + 52)) (hv : 2 ^ (q + 52) ≤ |v|) : |K * 2 ^ q - v| ≤ |a - v| := by
  have hpow : (2 : ℚ) ^ (q + 52) = (2 ^ 52 : ℤ) * 2 ^ q := by
    rw [two_zpow_split (add_comm q 52)]
    norm_num
  have hdist : |v| - 2 ^ (q + 52) ≤ |a - v| := by
    have := abs_sub_abs_le_abs_sub v a
    rw [abs_sub_comm] at this
    linarith
  refine le_trans ?_ hdist
  rcases le_total 0 v with hv0 | hv0
  · rw [abs_of_nonneg hv0] at hv ⊢
    refine (abs_sub_le_of_grid h (2 ^ 52)).trans_eq ?_
    rw [← hpow, abs_of_nonpos (by linarith)]
    ring
  · rw [abs_of_nonpos hv0] at hv ⊢
    refine (abs_sub_le_of_grid h (-2 ^ 52)).trans_eq ?_
    have hneg : ((-2 ^ 52 : ℤ) : ℚ) * 2 ^ q = -2 ^ (q + 52) := by
      rw [hpow]
      push_cast
      ring
    rw [hneg, abs_of_nonneg (by linarith)]
    ring

/-- A point of the grid that is close to a number of up to 53 bits has up to 53 bits. -/
theorem representable_of_grid {v : ℚ} {K q : ℤ} (hq : -1074 ≤ q) (hhigh : |v| < 2 ^ (q + 53))
    (h : |K * 2 ^ q - v| ≤ 2 ^ (q - 1)) : Representable (K * 2 ^ q) := by
  refine ⟨K, q, ?_, hq, rfl⟩
  have hK : |(K : ℚ)| * 2 ^ q < (2 ^ 53 + 1) * 2 ^ q := by
    calc |(K : ℚ)| * 2 ^ q = |(K : ℚ) * 2 ^ q| := by rw [abs_mul, abs_of_pos (two_zpow_pos q)]
      _ ≤ |(K : ℚ) * 2 ^ q - v| + |v| := by simpa using abs_add_le ((K : ℚ) * 2 ^ q - v) v
      _ < 2 ^ (q - 1) + 2 ^ (q + 53) := by linarith
      _ ≤ 2 ^ q + 2 ^ (q + 53) := by
        have := two_zpow_le (show q - 1 ≤ q by omega)
        linarith
      _ = (2 ^ 53 + 1) * 2 ^ q := by
        rw [two_zpow_split (add_comm q 53)]
        norm_num
        ring
  have := lt_of_mul_lt_mul_right hK (two_zpow_pos q).le
  have : |K| < 2 ^ 53 + 1 := by exact_mod_cast this
  omega

/-- **The nearest number on the grid is a nearest representable one.** -/
theorem nearest_of_grid {v : ℚ} {K q : ℤ} (hq : -1074 ≤ q) (hhigh : |v| < 2 ^ (q + 53))
    (hlow : q = -1074 ∨ 2 ^ (q + 52) ≤ |v|) (h : |K * 2 ^ q - v| ≤ 2 ^ (q - 1)) :
    Nearest v (K * 2 ^ q) := by
  refine ⟨representable_of_grid hq hhigh h, ?_⟩
  rintro _ ⟨k, E, hk, hE, rfl⟩
  rcases le_or_gt q E with hqE | hqE
  · obtain ⟨d, hd⟩ := Int.eq_ofNat_of_zero_le (show 0 ≤ E - q by omega)
    have hmultiple : (k : ℚ) * 2 ^ E = (k * 2 ^ d : ℤ) * 2 ^ q := by
      rw [two_zpow_split (show E = d + q by omega), zpow_natCast]
      push_cast
      ring
    rw [hmultiple]
    exact abs_sub_le_of_grid h _
  · -- A number between the points of the grid is no larger than the least one of 53 bits.
    refine abs_sub_le_of_grid_of_le h ?_ (hlow.resolve_left (by omega))
    have hk' : |(k : ℚ)| ≤ 2 ^ (53 : ℤ) := by exact_mod_cast hk
    calc |(k : ℚ) * 2 ^ E| = |(k : ℚ)| * 2 ^ E := by rw [abs_mul, abs_of_pos (two_zpow_pos E)]
      _ ≤ 2 ^ (53 : ℤ) * 2 ^ E := mul_le_mul_of_nonneg_right hk' (two_zpow_pos E).le
      _ = 2 ^ (53 + E) := (two_zpow_split rfl).symm
      _ ≤ 2 ^ (q + 52) := two_zpow_le (by omega)

namespace Nearest

variable {a b r v : ℚ}

theorem eq (h : Nearest v r) (hv : Representable v) : r = v := by
  have := h.le_abs v hv
  rw [sub_self, abs_zero] at this
  exact sub_eq_zero.1 (abs_nonpos_iff.1 this)

theorem neg (h : Nearest v r) : Nearest (-v) (-r) := by
  refine ⟨h.representable.neg, fun a ha => ?_⟩
  have := h.le_abs (-a) ha.neg
  rwa [← abs_neg, ← abs_neg (-a - v), neg_sub', neg_sub', neg_neg] at this

theorem ge (h : Nearest v r) (ha : Representable a) (hle : a ≤ v) : a ≤ r := by
  by_contra hlt
  have := h.le_abs a ha
  rw [abs_of_nonpos (by linarith), abs_of_nonpos (by linarith)] at this
  linarith

theorem le (h : Nearest v r) (ha : Representable a) (hle : v ≤ a) : r ≤ a := by
  have := h.neg.ge ha.neg (neg_le_neg hle)
  linarith

theorem nonneg (h : Nearest v r) (hv : 0 ≤ v) : 0 ≤ r := h.ge representable_zero hv

theorem nonpos (h : Nearest v r) (hv : v ≤ 0) : r ≤ 0 := h.le representable_zero hv

theorem abs_le_of_le (h : Nearest v r) (ha : Representable a) (hle : |v| ≤ a) : |r| ≤ a := by
  obtain ⟨hneg, hpos⟩ := abs_le.1 hle
  exact abs_le.2 ⟨h.ge ha.neg hneg, h.le ha hpos⟩

theorem le_abs_of_le (h : Nearest v r) (ha : Representable a) (hle : a ≤ |v|) : a ≤ |r| := by
  rcases le_total 0 v with hv | hv
  · rw [abs_of_nonneg hv] at hle
    exact (h.ge ha hle).trans (le_abs_self r)
  · rw [abs_of_nonpos hv] at hle
    have := h.le ha.neg (show v ≤ -a by linarith)
    exact (show a ≤ -r by linarith).trans (neg_le_abs r)

/-! ### How far rounding goes -/

/-- **Rounding is off by the `2 ^ 53`th part**, or by half the least positive number. -/
theorem error (h : Nearest v r) : |r - v| ≤ 2 ^ (-53 : ℤ) * |v| ∨ |r - v| ≤ 2 ^ (-1075 : ℤ) := by
  obtain ⟨q, hq, hhigh, hlow⟩ := exists_spacing v
  have hround : |(round (v / 2 ^ q) : ℚ) * 2 ^ q - v| ≤ 2 ^ (q - 1) := by
    have hhalf := abs_sub_round (v / 2 ^ q)
    calc |(round (v / 2 ^ q) : ℚ) * 2 ^ q - v|
        = |v / 2 ^ q - round (v / 2 ^ q)| * 2 ^ q := by
          rw [← abs_of_pos (two_zpow_pos q), ← abs_mul, abs_of_pos (two_zpow_pos q), sub_mul,
            div_mul_cancel₀ v (two_zpow_pos q).ne', abs_sub_comm]
      _ ≤ 1 / 2 * 2 ^ q := mul_le_mul_of_nonneg_right hhalf (two_zpow_pos q).le
      _ = 2 ^ (q - 1) := by
          rw [two_zpow_split (show q - 1 = -1 + q by omega)]
          norm_num
  have hle := (h.le_abs _ (nearest_of_grid hq hhigh hlow hround).representable).trans hround
  rcases hlow with rfl | hlow
  · exact .inr hle
  · refine .inl (hle.trans ?_)
    rw [two_zpow_split (show q - 1 = -53 + (q + 52) by omega)]
    exact mul_le_mul_of_nonneg_left hlow (two_zpow_pos _).le

theorem error_of_le (h : Nearest v r) (hv : 2 ^ (-1022 : ℤ) ≤ |v|) :
    |r - v| ≤ 2 ^ (-53 : ℤ) * |v| := by
  refine h.error.elim id fun hle => hle.trans ?_
  rw [two_zpow_split (show (-1075 : ℤ) = -53 + -1022 by norm_num)]
  exact mul_le_mul_of_nonneg_left hv (two_zpow_pos _).le

theorem ge_of_le (h : Nearest v r) (hv : 2 ^ (-1022 : ℤ) ≤ v) : 999 / 1000 * v ≤ r := by
  have hv0 : 0 < v := (two_zpow_pos _).trans_le hv
  have herror := h.error_of_le (by rwa [abs_of_pos hv0])
  rw [abs_of_pos hv0, abs_le] at herror
  norm_num at herror
  linarith

/-- **Sums of representable numbers are off by the `2 ^ 53`th part**, since those of fewer than
53 bits are exact. -/
theorem error_add (h : Nearest (a + b) r) (ha : Representable a) (hb : Representable b) :
    |r - (a + b)| ≤ 2 ^ (-53 : ℤ) * |a + b| := by
  rcases le_or_gt (2 ^ (-1022 : ℤ)) |a + b| with hv | hv
  · exact h.error_of_le hv
  obtain ⟨k, hk⟩ := ha.exists_multiple
  obtain ⟨l, hl⟩ := hb.exists_multiple
  have hsum : a + b = (k + l : ℤ) * 2 ^ (-1074 : ℤ) := by
    rw [hk, hl, ← add_mul, Int.cast_add]
  have hbits : |((k + l : ℤ) : ℚ)| < 2 ^ 53 := by
    refine lt_of_mul_lt_mul_right (a := 2 ^ (-1074 : ℤ)) ?_ (two_zpow_pos _).le
    calc |((k + l : ℤ) : ℚ)| * 2 ^ (-1074 : ℤ) = |a + b| := by
          rw [hsum, abs_mul, abs_of_pos (two_zpow_pos _)]
      _ < 2 ^ (-1022 : ℤ) := hv
      _ = 2 ^ (52 : ℤ) * 2 ^ (-1074 : ℤ) := two_zpow_split (by norm_num)
      _ ≤ 2 ^ 53 * 2 ^ (-1074 : ℤ) :=
          mul_le_mul_of_nonneg_right (by norm_num) (two_zpow_pos _).le
  have hbits' : |k + l| ≤ 2 ^ 53 := by
    have : |k + l| < 2 ^ 53 := by exact_mod_cast hbits
    exact this.le
  rw [h.eq ⟨k + l, -1074, hbits', le_rfl, hsum⟩, sub_self, abs_zero]
  positivity

theorem pos (h : Nearest v r) (hv : 2 ^ (-1075 : ℤ) < v) : 0 < r := by
  have hv0 : 0 < v := (two_zpow_pos _).trans hv
  rcases h.error with herror | herror
  · rw [abs_of_pos hv0, abs_le] at herror
    norm_num at herror
    linarith
  · rw [abs_le] at herror
    linarith

/-- What is not rounded to zero keeps its size up to a factor of two. -/
theorem size (h : Nearest v r) (hr : 0 < r) : r ≤ 2 * v ∧ v ≤ 2 * r := by
  have hv : 0 < v := by
    by_contra hv
    have := h.le representable_zero (not_lt.1 hv)
    linarith
  rcases h.error with herror | herror
  · rw [abs_of_pos hv, abs_le] at herror
    norm_num at herror
    constructor <;> linarith
  · have hleast := h.representable.least_le hr
    have hhalf : (2 : ℚ) ^ (-1 : ℤ) = 1 / 2 := by norm_num
    rw [two_zpow_split (show (-1075 : ℤ) = -1074 + -1 by norm_num), hhalf, abs_le] at herror
    constructor <;> linarith

end Nearest

end FactorPortfolio.Binary64
