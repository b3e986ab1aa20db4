import FactorPortfolio.Proofs.Scalar.Rounding
import FactorPortfolio.Scalar.Statistics

/-!
# Sums of equal numbers in binary64

Adding a number to itself rounds at every step, so the sum of `n` copies is not `n` times the
number.  It is off by the `n / 2 ^ 53`th part at most (`exists_value_sum`), and it is exact as long
as all multiples on the way have 53 bits (`value?_sum_of_multiples`).
-/

namespace FactorPortfolio.Binary64

theorem lt_of_le_moderate {a : ℚ} (h : a ≤ 2 ^ (128 : ℤ)) : a < 2 ^ (1022 : ℤ) :=
  h.trans_lt (zpow_lt_zpow_right₀ one_lt_two (by decide))

theorem sum_append (xs : List Float) (x : Float) :
    Scalar.sum (xs ++ [x]) = Scalar.sum xs + x := by
  rw [Scalar.sum, List.foldl_append]
  rfl

theorem value?_sum_nil : value? (Scalar.sum ([] : List Float)) = some 0 := rfl

theorem error_step {n u b s r : ℚ} (hn : 0 ≤ n) (hu : 0 ≤ u) (hnu : n * u ≤ 1) (hb : 0 ≤ b)
    (hs : |s| ≤ n ^ 2 * u * b) (hr : |r| ≤ u * ((n + 1) * b + |s|)) :
    |r + s| ≤ (n + 1) ^ 2 * u * b := by
  have hprod : u * (n ^ 2 * u * b) ≤ n * u * b := by
    have := mul_le_mul_of_nonneg_right hnu (show 0 ≤ n * u * b by positivity)
    linarith
  have hs' := mul_le_mul_of_nonneg_left hs hu
  calc |r + s| ≤ |r| + |s| := abs_add_le r s
    _ ≤ u * ((n + 1) * b + |s|) + |s| := by linarith
    _ ≤ (n + 1) ^ 2 * u * b := by linarith

/-- **The sum of `n` copies is off by the `n / 2 ^ 53`th part at most.** -/
theorem exists_value_sum {xs : List Float} {b : ℚ} (h : ∀ x ∈ xs, value? x = some b)
    (hlength : xs.length ≤ 2 ^ 52) (hb : |b| ≤ 2 ^ (64 : ℤ)) :
    ∃ s, value? (Scalar.sum xs) = some s ∧
      |s - xs.length * b| ≤ (xs.length : ℚ) ^ 2 * 2 ^ (-53 : ℤ) * |b| := by
  induction xs using List.reverseRecOn with
  | nil => exact ⟨0, value?_sum_nil, by simp⟩
  | append_singleton xs x ih =>
    rw [List.length_append, List.length_singleton] at hlength
    obtain ⟨s, hs, herror⟩ := ih (fun y hy => h y (List.mem_append_left _ hy)) (by omega)
    have hx : value? x = some b := h x (by simp)
    have hn : (xs.length : ℚ) ≤ 2 ^ 52 := by exact_mod_cast (show xs.length ≤ 2 ^ 52 by omega)
    have hnu : (xs.length : ℚ) * 2 ^ (-53 : ℤ) ≤ 1 := by
      norm_num
      linarith
    have htotal : s + b = s - xs.length * b + (xs.length + 1) * b := by ring
    have habs : |(xs.length + 1) * b| = (xs.length + 1) * |b| := by
      rw [abs_mul, abs_of_nonneg (by positivity)]
    have hsize : |s + b| ≤ (xs.length + 1) * |b| + |s - xs.length * b| := by
      rw [htotal, ← habs, add_comm]
      exact abs_add_le ((xs.length + 1) * b) _
    have hmoderate : |s + b| ≤ 2 ^ (128 : ℤ) := by
      have hdrift : (xs.length : ℚ) ^ 2 * 2 ^ (-53 : ℤ) * |b| ≤ xs.length * |b| := by
        have := mul_le_mul_of_nonneg_right hnu (show 0 ≤ xs.length * |b| by positivity)
        linarith
      have hterms : (2 * (xs.length : ℚ) + 1) * |b| ≤ (2 * 2 ^ 52 + 1) * 2 ^ (64 : ℤ) :=
        mul_le_mul (by linarith) hb (abs_nonneg b) (by norm_num)
      norm_num at hterms ⊢
      linarith
    obtain ⟨r, hr, hnearest⟩ := rounds_add hs hx (lt_of_le_moderate hmoderate)
    have hround := hnearest.error_add (representable_of_value hs) (representable_of_value hx)
    refine ⟨r, by rw [sum_append, hr], ?_⟩
    rw [List.length_append, List.length_singleton, Nat.cast_add, Nat.cast_one]
    have hsplit : r - (xs.length + 1) * b = r - (s + b) + (s - xs.length * b) := by ring
    rw [hsplit]
    refine error_step (Nat.cast_nonneg _) (two_zpow_pos _).le hnu (abs_nonneg b) herror
      (hround.trans ?_)
    exact mul_le_mul_of_nonneg_left hsize (two_zpow_pos _).le

/-- Of fewer than `2 ^ 38` copies the sum is off by the `2 ^ 15`th part at most. -/
theorem exists_value_sum_near {xs : List Float} {b : ℚ} (h : ∀ x ∈ xs, value? x = some b)
    (hlength : xs.length ≤ 2 ^ 38) (hb : |b| ≤ 2 ^ (64 : ℤ)) :
    ∃ s, value? (Scalar.sum xs) = some s ∧
      |s - xs.length * b| ≤ 2 ^ (-15 : ℤ) * (xs.length * |b|) := by
  obtain ⟨s, hs, herror⟩ := exists_value_sum h (by omega) hb
  refine ⟨s, hs, herror.trans ?_⟩
  have hn : (xs.length : ℚ) * 2 ^ (-53 : ℤ) ≤ 2 ^ (-15 : ℤ) := by
    have : (xs.length : ℚ) ≤ 2 ^ 38 := by exact_mod_cast hlength
    norm_num
    linarith
  calc (xs.length : ℚ) ^ 2 * 2 ^ (-53 : ℤ) * |b|
      = xs.length * 2 ^ (-53 : ℤ) * (xs.length * |b|) := by ring
    _ ≤ 2 ^ (-15 : ℤ) * (xs.length * |b|) := mul_le_mul_of_nonneg_right hn (by positivity)

/-- **The sum of copies is exact while its bits last.** -/
theorem value?_sum_of_multiples {xs : List Float} {b : ℚ} (h : ∀ x ∈ xs, value? x = some b)
    (hlength : xs.length ≤ 2 ^ 52) (hb : |b| ≤ 2 ^ (64 : ℤ))
    (hbits : ∀ m ≤ xs.length, Representable (m * b)) :
    value? (Scalar.sum xs) = some (xs.length * b) := by
  induction xs using List.reverseRecOn with
  | nil => rw [value?_sum_nil, List.length_nil, Nat.cast_zero, zero_mul]
  | append_singleton xs x ih =>
    rw [List.length_append, List.length_singleton] at hlength hbits
    have hs := ih (fun y hy => h y (List.mem_append_left _ hy)) (by omega)
      (fun m hm => hbits m (by omega))
    have hx : value? x = some b := h x (by simp)
    have htotal : (xs.length : ℚ) * b + b = (xs.length + 1 : ℕ) * b := by
      push_cast
      ring
    have hsize : |(xs.length : ℚ) * b + b| ≤ 2 ^ (128 : ℤ) := by
      have hn : ((xs.length + 1 : ℕ) : ℚ) ≤ 2 ^ 52 := by exact_mod_cast hlength
      rw [htotal, abs_mul, Nat.abs_cast]
      refine (mul_le_mul hn hb (abs_nonneg _) (by norm_num)).trans ?_
      norm_num
    obtain ⟨r, hr, hnearest⟩ := rounds_add hs hx (lt_of_le_moderate hsize)
    rw [htotal] at hnearest
    rw [sum_append, hr, hnearest.eq (hbits _ le_rfl), List.length_append, List.length_singleton]

theorem value?_mean_of_multiples {xs : List Float} {b : ℚ} (hne : xs ≠ [])
    (h : ∀ x ∈ xs, value? x = some b) (hlength : xs.length ≤ 2 ^ 52) (hb : |b| ≤ 2 ^ (64 : ℤ))
    (hbits : ∀ m ≤ xs.length, Representable (m * b)) : value? (Scalar.mean xs) = some b := by
  have hlength' : (xs.length : ℚ) ≠ 0 := by simpa using hne
  have hsum := value?_sum_of_multiples h hlength hb hbits
  have hquot : (xs.length : ℚ) * b / xs.length = b := mul_div_cancel_left₀ _ hlength'
  obtain ⟨x, hx⟩ := List.exists_mem_of_ne_nil xs hne
  have hlt : |(xs.length : ℚ) * b / xs.length| < 2 ^ (1022 : ℤ) := by
    rw [hquot]
    exact lt_of_le_moderate (hb.trans (two_zpow_le (by decide)))
  obtain ⟨r, hr, hnearest⟩ := rounds_div hsum (value?_ofNat (by omega)) hlength' hlt
  rw [hquot] at hnearest
  show value? (Scalar.sum xs / Float.ofNat xs.length) = _
  rw [hr, hnearest.eq (representable_of_value (h x hx))]

/-! ### The smaller and the larger number -/

theorem value?_min {x y : Float} {a b : ℚ} (hx : value? x = some a) (hy : value? y = some b) :
    value? (Scalar.min x y) = some (min a b) := by
  have hnan : Scalar.isNaN x = false := isNaN_of_value hx
  have hnan' : Scalar.isNaN y = false := isNaN_of_value hy
  have hlt : y < x ↔ b < a := lt_iff_of_value hy hx
  rw [Scalar.min, hnan, hnan', if_neg Bool.false_ne_true, if_neg Bool.false_ne_true]
  rcases lt_or_ge b a with h | h
  · rw [if_pos (hlt.2 h), min_eq_right h.le, hy]
  · rw [if_neg (hlt.not.2 h.not_gt), min_eq_left h, hx]

theorem value?_max {x y : Float} {a b : ℚ} (hx : value? x = some a) (hy : value? y = some b) :
    value? (Scalar.max x y) = some (max a b) := by
  have hnan : Scalar.isNaN x = false := isNaN_of_value hx
  have hnan' : Scalar.isNaN y = false := isNaN_of_value hy
  have hlt : x < y ↔ a < b := lt_iff_of_value hx hy
  rw [Scalar.max, hnan, hnan', if_neg Bool.false_ne_true, if_neg Bool.false_ne_true]
  rcases lt_or_ge a b with h | h
  · rw [if_pos (hlt.2 h), max_eq_right h.le, hy]
  · rw [if_neg (hlt.not.2 h.not_gt), max_eq_left h, hx]

theorem value?_foldl_min {l : List Float} {x : Float} {a b : ℚ} (hx : value? x = some a)
    (h : ∀ y ∈ l, value? y = some b) (hne : l ≠ []) :
    value? (l.foldl Scalar.min x) = some (min a b) := by
  induction l generalizing x a with
  | nil => exact absurd rfl hne
  | cons y l ih =>
    obtain ⟨hy, hl⟩ := List.forall_mem_cons.1 h
    have hmin := value?_min hx hy
    rw [List.foldl_cons]
    rcases eq_or_ne l [] with rfl | hne
    · exact hmin
    · rw [ih hmin hl hne, min_assoc, min_self]

end FactorPortfolio.Binary64
