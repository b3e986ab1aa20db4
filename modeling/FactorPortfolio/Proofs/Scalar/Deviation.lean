import FactorPortfolio.Proofs.Scalar.Sums

/-!
# The deviation of equal numbers in binary64

Copies of a number do not always have a deviation of zero: their mean is rounded, and what is left
of the number when it is taken off (`offMean`) may not be nothing. If its square is, there is no
deviation (`spread?_eq_none`), as for numbers whose multiples have 53 bits
(`value?_sq_offMean_of_multiples`). If not, the deviation is of the size of what is left, and the
z-scores, which are all the same, are neither small nor large (`exists_zScore`).
-/

namespace FactorPortfolio.Binary64

def spread? (xs : List Float) : Option Float :=
  (Scalar.sampleStdev? xs).filter fun s => (0.0 : Float) < s

/-! ### No deviation -/

theorem value?_ofNat_sub_one {n : ℕ} (hn : 1 ≤ n) (hn' : n ≤ 2 ^ 52) :
    value? (Float.ofNat n - 1.0) = some ((n - 1 : ℕ) : ℚ) := by
  have hpred : (n : ℚ) - 1 = (n - 1 : ℕ) := by
    rw [Nat.cast_sub hn, Nat.cast_one]
  have hmoderate : |(n : ℚ) - 1| ≤ 2 ^ (128 : ℤ) := by
    have : ((n - 1 : ℕ) : ℚ) ≤ 2 ^ 52 := by exact_mod_cast (show n - 1 ≤ 2 ^ 52 by omega)
    rw [hpred, Nat.abs_cast]
    norm_num at this ⊢
    linarith
  obtain ⟨r, hr, hnearest⟩ := rounds_sub (value?_ofNat (n := n) (by omega)) value?_one
    (lt_of_le_moderate hmoderate)
  rw [hr, hnearest.eq (hpred ▸ representable_natCast (by omega)), hpred]

/-- **Scores whose squared distances from their mean come to nothing have no deviation.** -/
theorem spread?_eq_none {xs : List Float} (hlength : 2 ≤ xs.length)
    (hlength' : xs.length ≤ 2 ^ 38)
    (h : ∀ x ∈ xs, value? ((x - Scalar.mean xs) * (x - Scalar.mean xs)) = some 0) :
    spread? xs = none := by
  have hsum : value? (Scalar.sum (xs.map fun x => (x - Scalar.mean xs) * (x - Scalar.mean xs))) =
      some 0 := by
    have hzeros : ∀ y ∈ xs.map fun x => (x - Scalar.mean xs) * (x - Scalar.mean xs),
        value? y = some 0 := by
      simpa using h
    have := value?_sum_of_multiples hzeros (by rw [List.length_map]; omega) (by norm_num)
      (fun m _ => by rw [mul_zero]; exact representable_zero)
    rwa [mul_zero] at this
  have hvariance : value? (Scalar.sampleVariance xs) = some 0 := by
    obtain ⟨r, hr, hnearest⟩ := rounds_div hsum (value?_ofNat_sub_one (n := xs.length)
      (by omega) (by omega)) (by exact_mod_cast (show xs.length - 1 ≠ 0 by omega))
      (by rw [zero_div, abs_zero]; exact two_zpow_pos 1022)
    rw [zero_div] at hnearest
    rw [hnearest.eq representable_zero] at hr
    exact hr
  have hroot : value? (Scalar.sqrt (Scalar.sampleVariance xs)) = some 0 :=
    value?_sqrt_zero hvariance
  rw [spread?, Scalar.sampleStdev?, if_neg (by omega), Option.filter_some, if_neg]
  rw [decide_eq_true_iff]
  exact (lt_iff_of_value value?_zero hroot).not.2 (lt_irrefl 0)

theorem value?_sq_sub_mean_of_multiples {xs : List Float} {b : ℚ}
    (h : ∀ x ∈ xs, value? x = some b) (hlength : xs.length ≤ 2 ^ 52) (hb : |b| ≤ 2 ^ (64 : ℤ))
    (hbits : ∀ m ≤ xs.length, Representable (m * b)) {x : Float} (hx : x ∈ xs) :
    value? ((x - Scalar.mean xs) * (x - Scalar.mean xs)) = some 0 := by
  have hmean := value?_mean_of_multiples (List.ne_nil_of_mem hx) h hlength hb hbits
  have hzero : |b - b| < 2 ^ (1022 : ℤ) := by
    rw [sub_self, abs_zero]
    exact two_zpow_pos 1022
  obtain ⟨d, hd, hnearest⟩ := rounds_sub (h x hx) hmean hzero
  rw [sub_self] at hnearest
  rw [hnearest.eq representable_zero] at hd
  obtain ⟨w, hw, hnearest⟩ := rounds_mul hd hd
    (by rw [mul_zero, abs_zero]; exact two_zpow_pos 1022)
  rw [mul_zero] at hnearest
  rw [hw, hnearest.eq representable_zero]

/-! ### A deviation that is not zero -/

/-- What is left of a score when the rounded mean of `n` copies of it is taken off. -/
def offMean (c : Float) (n : ℕ) : Float := c - Scalar.mean (List.replicate n c)

theorem exists_value_offMean {c : Float} {n : ℕ} {a : ℚ} (hn : 3 ≤ n) (hn' : n ≤ 2 ^ 38)
    (hc : value? c = some a) (ha : |a| ≤ 2 ^ (20 : ℤ)) :
    ∃ d, value? (offMean c n) = some d ∧ |d| ≤ 2 ^ (22 : ℤ) := by
  have hn3 : (3 : ℚ) ≤ n := by exact_mod_cast hn
  have hcopies : ∀ x ∈ List.replicate n c, value? x = some a :=
    fun x hx => List.eq_of_mem_replicate hx ▸ hc
  obtain ⟨s, hs, hsum⟩ := exists_value_sum_near hcopies (by rwa [List.length_replicate])
    (ha.trans (two_zpow_le (by decide)))
  rw [List.length_replicate] at hsum
  have hquot : |s / n| ≤ 2 ^ (21 : ℤ) := by
    have hsplit := abs_add_le (s - n * a) (n * a)
    rw [sub_add_cancel, abs_mul, Nat.abs_cast] at hsplit
    have hscale := mul_le_mul_of_nonneg_left ha (show (0 : ℚ) ≤ n by linarith)
    rw [abs_div, Nat.abs_cast, div_le_iff₀ (by linarith)]
    norm_num at hsum hscale ⊢
    linarith
  obtain ⟨m, hm, hmean⟩ := rounds_div hs (value?_ofNat (n := n) (by omega)) (by linarith)
    (lt_of_le_moderate (hquot.trans (two_zpow_le (by decide))))
  have hm' := hmean.abs_le_of_le (representable_two_zpow (by decide)) hquot
  have hdiff : |a - m| ≤ 2 ^ (22 : ℤ) := by
    rw [abs_le] at ha hm' ⊢
    norm_num at ha hm' ⊢
    constructor <;> linarith
  obtain ⟨d, hd, hoff⟩ := rounds_sub hc hm
    (lt_of_le_moderate (hdiff.trans (two_zpow_le (by decide))))
  refine ⟨d, ?_, hoff.abs_le_of_le (representable_two_zpow (by decide)) hdiff⟩
  rw [offMean, Scalar.mean, List.length_replicate]
  exact hd

/-- The square that is left, and the distance it comes from. -/
theorem exists_value_sq_offMean {c : Float} {n : ℕ} {a : ℚ} (hn : 3 ≤ n) (hn' : n ≤ 2 ^ 38)
    (hc : value? c = some a) (ha : |a| ≤ 2 ^ (20 : ℤ)) :
    ∃ d w, value? (offMean c n) = some d ∧ value? (offMean c n * offMean c n) = some w ∧
      Nearest (d * d) w ∧ w ≤ 2 ^ (44 : ℤ) := by
  obtain ⟨d, hd, hle⟩ := exists_value_offMean hn hn' hc ha
  have hsq : |d * d| ≤ 2 ^ (44 : ℤ) := by
    rw [abs_mul]
    refine (mul_le_mul hle hle (abs_nonneg d) (two_zpow_pos _).le).trans_eq ?_
    norm_num
  obtain ⟨w, hw, hmul⟩ := rounds_mul hd hd
    (lt_of_le_moderate (hsq.trans (two_zpow_le (by decide))))
  exact ⟨d, w, hd, hw, hmul,
    hmul.le (representable_two_zpow (by decide)) ((le_abs_self _).trans hsq)⟩

theorem value?_sq_offMean_of_multiples {c : Float} {n : ℕ} {a : ℚ} (hn : 3 ≤ n)
    (hn' : n ≤ 2 ^ 38) (hc : value? c = some a) (ha : |a| ≤ 2 ^ (20 : ℤ))
    (hbits : ∀ m ≤ n, Representable (m * a)) :
    value? (offMean c n * offMean c n) = some 0 := by
  have hcopies : ∀ x ∈ List.replicate n c, value? x = some a :=
    fun x hx => List.eq_of_mem_replicate hx ▸ hc
  exact value?_sq_sub_mean_of_multiples hcopies (by rw [List.length_replicate]; omega)
    (ha.trans (two_zpow_le (by decide))) (by rwa [List.length_replicate])
    (List.mem_replicate.2 ⟨by omega, rfl⟩)

/-- **The variance of equal scores is of the size of the squares** it is made from. -/
theorem exists_value_variance {c : Float} {n : ℕ} {w : ℚ} (hn : 3 ≤ n) (hn' : n ≤ 2 ^ 38)
    (hw : value? (offMean c n * offMean c n) = some w) (hpos : 0 < w) (hle : w ≤ 2 ^ (44 : ℤ)) :
    ∃ V, value? (Scalar.sampleVariance (List.replicate n c)) = some V ∧ 0 < V ∧
      w ≤ 3 * V ∧ V ≤ 4 * w := by
  have hn3 : (3 : ℚ) ≤ n := by exact_mod_cast hn
  have hpred : ((n - 1 : ℕ) : ℚ) = n - 1 := by
    rw [Nat.cast_sub (by omega), Nat.cast_one]
  have hpredpos : (0 : ℚ) < (n - 1 : ℕ) := by
    rw [hpred]
    linarith
  have hcopies : ∀ x ∈ List.replicate n (offMean c n * offMean c n), value? x = some w :=
    fun x hx => List.eq_of_mem_replicate hx ▸ hw
  obtain ⟨S, hS, hsum⟩ := exists_value_sum_near hcopies (by rwa [List.length_replicate])
    (by rw [abs_of_pos hpos]; exact hle.trans (two_zpow_le (by decide)))
  rw [List.length_replicate, abs_of_pos hpos, abs_le] at hsum
  have hhigh : S / (n - 1 : ℕ) ≤ 8 / 5 * w := by
    rw [div_le_iff₀ hpredpos, hpred]
    norm_num at hsum
    nlinarith
  have hlow : 9 / 10 * w ≤ S / (n - 1 : ℕ) := by
    rw [le_div_iff₀ hpredpos, hpred]
    norm_num at hsum
    nlinarith
  have hmoderate : |S / (n - 1 : ℕ)| ≤ 2 ^ (128 : ℤ) := by
    rw [abs_of_nonneg (by linarith)]
    norm_num at hle hhigh ⊢
    linarith
  obtain ⟨V, hV, hnearest⟩ := rounds_div hS (value?_ofNat_sub_one (n := n) (by omega) (by omega))
    hpredpos.ne' (lt_of_le_moderate hmoderate)
  have hVpos : 0 < V := by
    refine hnearest.pos (lt_of_lt_of_le ?_ hlow)
    have hleast := (representable_of_value hw).least_le hpos
    have hhalf : (2 : ℚ) ^ (-1 : ℤ) = 1 / 2 := by norm_num
    rw [two_zpow_split (show (-1075 : ℤ) = -1074 + -1 by norm_num), hhalf]
    have := two_zpow_pos (-1074)
    linarith
  have hsize := hnearest.size hVpos
  refine ⟨V, ?_, hVpos, by linarith, by linarith⟩
  rw [Scalar.sampleVariance, List.map_replicate, List.length_replicate]
  exact hV

/-- **Equal scores off their rounded mean have z-scores of a moderate size.** -/
theorem exists_zScore {c : Float} {n : ℕ} {a w : ℚ} (hn : 3 ≤ n) (hn' : n ≤ 2 ^ 38)
    (hc : value? c = some a) (ha : |a| ≤ 2 ^ (20 : ℤ))
    (hw : value? (offMean c n * offMean c n) = some w) (hne : w ≠ 0) :
    ∃ stdev z, spread? (List.replicate n c) = some stdev ∧
      value? (offMean c n / stdev) = some z ∧ 1 / 4 ≤ |z| ∧ |z| ≤ 4 := by
  obtain ⟨d, w', hd, hw', hmul, hwle⟩ := exists_value_sq_offMean hn hn' hc ha
  obtain rfl : w = w' := Option.some.inj (hw.symm.trans hw')
  have hwpos : 0 < w := lt_of_le_of_ne (hmul.nonneg (mul_self_nonneg d)) hne.symm
  have hwsize := hmul.size hwpos
  obtain ⟨V, hV, hVpos, hVlow, hVhigh⟩ := exists_value_variance hn hn' hw hwpos hwle
  obtain ⟨s, hs, hspos, hroot⟩ := exists_value_sqrt hV hVpos
  have hlow : d * d ≤ 16 * (s * s) := by
    rw [abs_le] at hroot
    norm_num at hroot
    linarith
  have hhigh : s * s ≤ 16 * (d * d) := by
    rw [abs_le] at hroot
    norm_num at hroot
    linarith
  have hquot : |d / s| ≤ 4 := by
    rw [abs_div, abs_of_pos hspos, div_le_iff₀ hspos]
    refine abs_le_of_sq_le_sq ?_ (by linarith)
    nlinarith
  have hquot' : 1 / 4 ≤ |d / s| := by
    rw [abs_div, abs_of_pos hspos, le_div_iff₀ hspos]
    refine le_of_sq_le_sq ?_ (abs_nonneg d)
    rw [sq_abs]
    nlinarith
  obtain ⟨z, hz, hnearest⟩ := rounds_div hd hs hspos.ne'
    (lt_of_le_moderate (hquot.trans (by norm_num)))
  have hlt : (0.0 : Float) < (Scalar.sampleVariance (List.replicate n c)).sqrt :=
    (lt_iff_of_value value?_zero hs).2 hspos
  refine ⟨_, z, ?_, hz, ?_, ?_⟩
  · rw [spread?, Scalar.sampleStdev?, if_neg (by rw [List.length_replicate]; omega),
      Option.filter_some, if_pos]
    · rfl
    · exact decide_eq_true hlt
  · have := hnearest.le_abs_of_le (representable_two_zpow (e := -2) (by decide))
      (by norm_num at hquot' ⊢; exact hquot')
    norm_num at this ⊢
    exact this
  · have := hnearest.abs_le_of_le (representable_two_zpow (e := 2) (by decide))
      (by norm_num; exact hquot)
    norm_num at this
    exact this

end FactorPortfolio.Binary64
