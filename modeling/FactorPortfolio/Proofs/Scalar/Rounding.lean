import FactorPortfolio.Proofs.Scalar.Value

/-!
# Rounded arithmetic

Sums, differences, products and quotients of binary64 numbers are the nearest numbers to what exact
arithmetic gives (`rounds_add`, `rounds_sub`, `rounds_mul`, `rounds_div`), as long as that is below
`2 ^ 1022`. Square roots are irrational, so of them it is only said how far the square may be off
(`exists_value_sqrt`). All of them end in one rounding of a mantissa that may have bits left over;
`roundWithAccuracy_eq_settled` says what it comes to.
-/

namespace FactorPortfolio.Binary64

open Float.Model Float.Model.UnpackedFloat

/-- A number is what `v` is rounded to. -/
def Rounds (x : Float) (v : ℚ) : Prop := ∃ r, value? x = some r ∧ Nearest v r

/-! ### One rounding -/

theorem two_pow_52_pos : 0 < 2 ^ 52 := by decide

/-- Up to `2 ^ 53` units of `2 ^ q`; `2 ^ 53` itself is carried over into the exponent. -/
def settled (s : Sign) (R : ℕ) (q : ℤ) : UnpackedFloat :=
  if h : R = 0 then .zero s
  else if R < 2 ^ 53 then .finite s R q (Nat.pos_of_ne_zero h)
  else .finite s (2 ^ 52) (q + 1) two_pow_52_pos

/-- The exponent that leaves 53 bits of `m`, or the least one. -/
def target (m : ℕ) (e : ℤ) : ℤ := Format.binary64.targetExponent (totalExponent m e)

theorem target_eq (m : ℕ) (e : ℤ) : target m e = max (m.log2 + e - 52) (-1074) := by
  simp [target, Format.targetExponent, totalExponent, Format.mantissaBits, Format.minExponent]
  omega

def excess (m : ℕ) (e : ℤ) : ℕ := (target m e - e).toNat

theorem fraction?_settled {s : Sign} {R : ℕ} {q : ℤ} (hR : R ≤ 2 ^ 53) (hq : -1074 ≤ q)
    (hq' : q ≤ 970) (hbits : q = -1074 ∨ 2 ^ 52 ≤ R) :
    fraction? (Float.Model.pack (settled s R q)).unpack =
      some ((s.apply 1 : ℤ) * ((R : ℚ) * 2 ^ q)) := by
  rw [settled]
  split
  · rename_i hzero
    rw [unpack_pack_zero, hzero, fraction?, Nat.cast_zero, zero_mul, mul_zero]
  split
  · rename_i hlt
    rw [unpack_pack_canonical ⟨hlt, hq, by omega, hbits⟩, fraction?, apply_cast, mul_assoc]
  · obtain rfl : R = 2 ^ 53 := by omega
    have hcarry : ((2 ^ 52 : ℕ) : ℚ) * 2 ^ (q + 1) = (2 ^ 53 : ℕ) * 2 ^ q := by
      rw [two_zpow_split (add_comm q 1)]
      norm_num
      ring
    rw [unpack_pack_canonical ⟨by decide, by omega, by omega, .inr le_rfl⟩, fraction?, apply_cast,
      mul_assoc, hcarry]

theorem mantissa_shiftRight (em : ExtendedMantissa) (k : ℕ) :
    (em >>> k).mantissa = em.mantissa / 2 ^ k := by
  show (k.repeat ExtendedMantissa.shiftRightOne em).mantissa = _
  induction k with
  | zero => simp [Nat.repeat]
  | succ k ih =>
    rw [Nat.repeat, ExtendedMantissa.shiftRightOne, ih, Nat.div_div_eq_div_mul, Nat.pow_succ]

theorem mantissa_ofMantissaAndAccuracy (m : ℕ) (accuracy : Accuracy) :
    (ExtendedMantissa.ofMantissaAndAccuracy m accuracy).mantissa = m := by
  rcases accuracy with _ | (_ | _ | _) <;> rfl

theorem roundedMantissa_bounds (em : ExtendedMantissa) :
    em.mantissa ≤ em.roundedMantissa ∧ em.roundedMantissa ≤ em.mantissa + 1 := by
  obtain ⟨m, round, sticky⟩ := em
  cases round <;> cases sticky <;>
    simp [ExtendedMantissa.roundedMantissa, ExtendedMantissa.accuracy,
      Accuracy.roundToNearestEven]
  omega

/-- Cutting off the excess leaves 53 bits, or fewer with the least exponent. -/
theorem bits_of_excess {m : ℕ} {e : ℤ} (he : e ≤ target m e) :
    m < 2 ^ (53 + excess m e) ∧ (target m e = -1074 ∨ 2 ^ (52 + excess m e) ≤ m) := by
  have htarget := target_eq m e
  have hexcess : (excess m e : ℤ) = target m e - e := Int.toNat_of_nonneg (by omega)
  constructor
  · exact Nat.lt_log2_self.trans_le (Nat.pow_le_pow_right two_pos (by omega))
  · by_cases hleast : target m e = -1074
    · exact .inl hleast
    · have hlog : m.log2 = 52 + excess m e := by omega
      have hm : m ≠ 0 := by
        rintro rfl
        rw [Nat.log2_zero] at hlog
        omega
      exact .inr (hlog ▸ Nat.log2_self_le hm)

theorem shiftToTargetExponent_settled {s : Sign} {R : ℕ} {q : ℤ} (hR : R ≤ 2 ^ 53)
    (hq : -1074 ≤ q) :
    (let shifted := shiftToTargetExponent Format.binary64 R q .exact
      if h : shifted.1.mantissa = 0 then .zero s
      else .finite s shifted.1.mantissa shifted.2 (Nat.pos_of_ne_zero h)) = settled s R q := by
  rcases Nat.lt_or_eq_of_le hR with hlt | rfl
  · have hlog : R.log2 ≤ 52 := by
      rcases eq_or_ne R 0 with rfl | hne
      · simp
      · have := (Nat.log2_lt hne).2 hlt
        omega
    have hshift : (Format.binary64.targetExponent (totalExponent R q) - q).toNat = 0 := by
      have : target R q ≤ q := by
        rw [target_eq]
        omega
      exact Int.toNat_eq_zero.2 (by rw [target] at this; omega)
    have hkept : shiftToTargetExponent Format.binary64 R q .exact = (⟨R, false, false⟩, q) := by
      simp [shiftToTargetExponent, shiftToExponent, hshift, HShiftRight.hShiftRight, Nat.repeat,
        ExtendedMantissa.ofMantissaAndAccuracy]
    simp only [hkept, settled, hlt, if_true]
  · have hlog : (2 ^ 53).log2 = 52 + 1 := by decide +kernel
    rw [shiftToTargetExponent_eq hlog (by omega)]
    simp [ExtendedMantissa.ofMantissaAndAccuracy, HShiftRight.hShiftRight, Nat.repeat,
      ExtendedMantissa.shiftRightOne, settled]

theorem settled_bits {m : ℕ} {e : ℤ} (he : e ≤ target m e) (accuracy : Accuracy) :
    (ExtendedMantissa.ofMantissaAndAccuracy m accuracy >>> excess m e).roundedMantissa ≤ 2 ^ 53 ∧
      (target m e = -1074 ∨ 2 ^ 52 ≤
        (ExtendedMantissa.ofMantissaAndAccuracy m accuracy >>> excess m e).roundedMantissa) := by
  obtain ⟨hhigh, hlow⟩ := bits_of_excess he
  obtain ⟨hdown, hup⟩ :=
    roundedMantissa_bounds (ExtendedMantissa.ofMantissaAndAccuracy m accuracy >>> excess m e)
  rw [mantissa_shiftRight, mantissa_ofMantissaAndAccuracy] at hdown hup
  rw [Nat.pow_add] at hhigh hlow
  have hhigh' := (Nat.div_lt_iff_lt_mul (by positivity)).2 hhigh
  refine ⟨by omega, hlow.imp id fun hlow => ?_⟩
  exact ((Nat.le_div_iff_mul_le (by positivity)).2 hlow).trans hdown

/-- **What one rounding comes to.** -/
theorem roundWithAccuracy_eq_settled (s : Sign) {m : ℕ} {e : ℤ} (he : e ≤ target m e)
    (accuracy : Accuracy) :
    roundWithAccuracy Format.binary64 s m e accuracy =
      settled s (ExtendedMantissa.ofMantissaAndAccuracy m accuracy >>> excess m e).roundedMantissa
        (target m e) := by
  have hexcess : (excess m e : ℤ) = target m e - e := Int.toNat_of_nonneg (by omega)
  have hleast : -1074 ≤ target m e := by
    rw [target_eq]
    omega
  rw [← shiftToTargetExponent_settled (settled_bits he accuracy).1 hleast, roundWithAccuracy]
  have hfirst : shiftToTargetExponent Format.binary64 m e accuracy =
      (ExtendedMantissa.ofMantissaAndAccuracy m accuracy >>> excess m e, target m e) := by
    show (ExtendedMantissa.ofMantissaAndAccuracy m accuracy >>> excess m e,
      e + (excess m e : ℤ)) = _
    rw [hexcess, add_sub_cancel]
  rw [hfirst]

/-- **A fraction is rounded to a nearest number.** -/
theorem nearest_settled {num den : ℕ} {e : ℤ} (hden : 0 < den) (he : e ≤ target (num / den) e) :
    Nearest ((num / den : ℚ) * 2 ^ e)
      ((ExtendedMantissa.ofMantissaAndAccuracy (num / den) (accuracyOfFraction (num % den) den) >>>
        excess (num / den) e).roundedMantissa * 2 ^ target (num / den) e) := by
  obtain ⟨hhigh, hlow⟩ := bits_of_excess he
  have hexcess : (excess (num / den) e : ℤ) = target (num / den) e - e :=
    Int.toNat_of_nonneg (by omega)
  have hleast : -1074 ≤ target (num / den) e := by
    rw [target_eq]
    omega
  rw [ofMantissaAndAccuracy_div hden, shiftRight_extended hden]
  generalize target (num / den) e = q at *
  generalize excess (num / den) e = k at *
  have hden' : (0 : ℚ) < den := by exact_mod_cast hden
  have hpow : (2 : ℚ) ^ q = 2 ^ k * 2 ^ e := by
    rw [two_zpow_split (show q = k + e by omega), zpow_natCast]
  have habs : |(num / den : ℚ) * 2 ^ e| = num / den * 2 ^ e :=
    abs_of_nonneg (mul_nonneg (by positivity) (two_zpow_pos e).le)
  obtain ⟨hup, hdown⟩ := roundedMantissa_extended num (show 0 < 2 ^ k * den by positivity)
  generalize (extended num (2 ^ k * den)).roundedMantissa = R at *
  have hup' : 2 * (num : ℚ) ≤ (2 * R + 1) * (2 ^ k * den) := by exact_mod_cast hup
  have hdown' : 2 * (R : ℚ) * (2 ^ k * den) ≤ 2 * num + 2 ^ k * den := by exact_mod_cast hdown
  have hnear : |((R : ℤ) : ℚ) * 2 ^ q - num / den * 2 ^ e| ≤ 2 ^ (q - 1) := by
    have hhalf : (2 : ℚ) ^ (q - 1) = 1 / 2 * 2 ^ k * 2 ^ e := by
      rw [two_zpow_split (show q - 1 = -1 + q by omega), hpow]
      norm_num
      ring
    have hmul : ((R : ℤ) : ℚ) * 2 ^ q - num / den * 2 ^ e = (R * 2 ^ k - num / den) * 2 ^ e := by
      rw [hpow, Int.cast_natCast]
      ring
    rw [hmul, abs_mul, abs_of_pos (two_zpow_pos e), hhalf]
    refine mul_le_mul_of_nonneg_right (abs_le.2 ⟨?_, ?_⟩) (two_zpow_pos e).le
    · rw [neg_le_sub_iff_le_add, div_le_iff₀ hden']
      linarith
    · rw [sub_le_iff_le_add, ← sub_le_iff_le_add', le_div_iff₀ hden']
      linarith
  refine nearest_of_grid hleast ?_ (hlow.imp id fun hlow => ?_) hnear
  · have hnum : (num : ℚ) < 2 ^ (53 + k) * den := by
      exact_mod_cast (Nat.div_lt_iff_lt_mul hden).1 hhigh
    rw [habs, two_zpow_split (show q + 53 = (53 + k : ℕ) + e by push_cast; omega), zpow_natCast]
    exact mul_lt_mul_of_pos_right ((div_lt_iff₀ hden').2 hnum) (two_zpow_pos e)
  · have hnum : (2 : ℚ) ^ (52 + k) * den ≤ num := by
      exact_mod_cast (Nat.le_div_iff_mul_le hden).1 hlow
    rw [habs, two_zpow_split (show q + 52 = (52 + k : ℕ) + e by push_cast; omega), zpow_natCast]
    exact mul_le_mul_of_nonneg_right ((le_div_iff₀ hden').2 hnum) (two_zpow_pos e).le

theorem Nearest.apply {v r : ℚ} (h : Nearest v r) (s : Sign) :
    Nearest ((s.apply 1 : ℤ) * v) ((s.apply 1 : ℤ) * r) := by
  cases s with
  | positive => simpa [Sign.apply] using h
  | negative => simpa [Sign.apply] using h.neg

theorem exists_nearest_roundWithAccuracy (s : Sign) (num : ℕ) {den : ℕ} {e : ℤ} (hden : 0 < den)
    (he : e ≤ target (num / den) e) (hlt : (num / den : ℚ) * 2 ^ e < 2 ^ (1022 : ℤ)) :
    ∃ r, fraction? (Float.Model.pack (roundWithAccuracy Format.binary64 s (num / den) e
        (accuracyOfFraction (num % den) den))).unpack = some r ∧
      Nearest ((s.apply 1 : ℤ) * (num / den * 2 ^ e)) r := by
  have hnearest := nearest_settled hden he
  obtain ⟨hhigh, hlow⟩ := settled_bits he (accuracyOfFraction (num % den) den)
  have hle := hnearest.le ⟨1, 1022, by decide, by decide, by simp⟩ hlt.le
  have hleast : -1074 ≤ target (num / den) e := by
    rw [target_eq]
    omega
  have hgreatest : target (num / den) e ≤ 970 := by
    rcases hlow with hlow | hlow
    · omega
    · have hpow : (2 : ℚ) ^ (52 + target (num / den) e) ≤ 2 ^ (1022 : ℤ) := by
        refine le_trans ?_ hle
        rw [two_zpow_split rfl]
        exact mul_le_mul_of_nonneg_right (by exact_mod_cast hlow) (two_zpow_pos _).le
      have := (zpow_le_zpow_iff_right₀ (one_lt_two : (1 : ℚ) < 2)).1 hpow
      omega
  rw [roundWithAccuracy_eq_settled s he, fraction?_settled hhigh hleast hgreatest hlow]
  exact ⟨_, rfl, hnearest.apply s⟩

/-! ### Shifts -/

theorem log2_shiftLeft {m : ℕ} (hm : 0 < m) (d : ℕ) : (m <<< d).log2 = m.log2 + d := by
  obtain ⟨hlow, hhigh⟩ := (Nat.log2_eq_iff hm.ne').1 rfl
  rw [Nat.shiftLeft_eq, Nat.log2_eq_iff (by positivity), Nat.pow_add, Nat.add_right_comm,
    Nat.pow_add]
  exact ⟨Nat.mul_le_mul_right _ hlow, Nat.mul_lt_mul_of_pos_right hhigh (by positivity)⟩

theorem shiftLeft_value (m d : ℕ) (e : ℤ) :
    ((m <<< d : ℕ) : ℚ) * 2 ^ (e - d) = m * 2 ^ e := by
  rw [Nat.shiftLeft_eq, Nat.cast_mul, Nat.cast_pow, Nat.cast_ofNat,
    two_zpow_split (show e = d + (e - d) by omega), zpow_natCast, mul_assoc]

theorem shiftLeft_value_of_le (m : ℕ) {e t : ℤ} (h : t ≤ e) :
    ((m <<< (e - t).toNat : ℕ) : ℚ) * 2 ^ t = m * 2 ^ e := by
  rw [← shiftLeft_value m (e - t).toNat e, Int.toNat_of_nonneg (by omega), sub_sub_cancel]

/-! ### Sums -/

theorem exists_nearest_round (s : Sign) {m : ℕ} (hm : 0 < m) {e : ℤ}
    (hlt : (m : ℚ) * 2 ^ e < 2 ^ (1022 : ℤ)) :
    ∃ r, fraction? (Float.Model.pack (UnpackedFloat.round Format.binary64 s m e)).unpack =
        some r ∧ Nearest ((s.apply 1 : ℤ) * (m * 2 ^ e)) r := by
  have hvalue := shiftLeft_value m (e - target m e).toNat e
  have hlog := log2_shiftLeft hm (e - target m e).toNat
  have htarget := target_eq m e
  have htarget' := target_eq (m <<< (e - target m e).toNat) (e - (e - target m e).toNat)
  obtain ⟨r, hr, hnearest⟩ := exists_nearest_roundWithAccuracy s
    (m <<< (e - target m e).toNat) (e := e - (e - target m e).toNat) Nat.one_pos
    (by rw [Nat.div_one, htarget', hlog]; omega)
    (by rw [Nat.cast_one, div_one, hvalue]; exact hlt)
  rw [Nat.div_one, Nat.mod_one] at hr
  rw [Nat.cast_one, div_one, hvalue] at hnearest
  exact ⟨r, hr, hnearest⟩

theorem exists_nearest_normalize {M e : ℤ} (zeroSign : Sign)
    (hlt : |(M : ℚ) * 2 ^ e| < 2 ^ (1022 : ℤ)) :
    ∃ r, fraction? (Float.Model.pack
        (UnpackedFloat.normalize Format.binary64 M e zeroSign)).unpack = some r ∧
      Nearest (M * 2 ^ e) r := by
  rw [UnpackedFloat.normalize]
  rcases lt_trichotomy M 0 with hM | rfl | hM
  · obtain ⟨m, rfl⟩ : ∃ m : ℕ, M = -m := ⟨(-M).toNat, by omega⟩
    have hlt' : (m : ℚ) * 2 ^ e < 2 ^ (1022 : ℤ) := by
      refine lt_of_le_of_lt (le_abs_self _) ?_
      rwa [Int.cast_neg, Int.cast_natCast, neg_mul, abs_neg] at hlt
    obtain ⟨r, hr, hnearest⟩ := exists_nearest_round .negative (show 0 < m by omega) hlt'
    rw [compare_lt_iff_lt.2 hM, neg_neg, Int.toNat_natCast]
    refine ⟨r, hr, ?_⟩
    simpa [Sign.apply] using hnearest
  · rw [compare_eq_iff_eq.2 rfl]
    refine ⟨0, by rw [unpack_pack_zero]; rfl, ?_⟩
    rw [Int.cast_zero, zero_mul]
    exact representable_zero.nearest
  · obtain ⟨m, rfl⟩ : ∃ m : ℕ, M = m := ⟨M.toNat, by omega⟩
    rw [Int.cast_natCast] at hlt ⊢
    obtain ⟨r, hr, hnearest⟩ := exists_nearest_round .positive (show 0 < m by omega)
      (lt_of_le_of_lt (le_abs_self _) hlt)
    rw [compare_gt_iff_gt.2 hM, Int.toNat_natCast]
    refine ⟨r, hr, ?_⟩
    simpa [Sign.apply] using hnearest

/-- **A sum is the nearest number to the exact sum.** -/
theorem rounds_add {x y : Float} {a b : ℚ} (ha : value? x = some a) (hb : value? y = some b)
    (hlt : |a + b| < 2 ^ (1022 : ℤ)) : Rounds (x + y) (a + b) := by
  show ∃ r, fraction? (Float.Model.pack (UnpackedFloat.add Format.binary64 x.toModel.unpack
    y.toModel.unpack)).unpack = some r ∧ _
  have hrepresentable := representable_of_value ha
  have hrepresentable' := representable_of_value hb
  rcases value?_eq_some_iff.1 ha with ⟨⟨s, hx⟩, rfl⟩ | ⟨s, m, e, hm, hx, rfl⟩ <;>
    rcases value?_eq_some_iff.1 hb with ⟨⟨s', hy⟩, rfl⟩ | ⟨s', m', e', hm', hy, rfl⟩ <;>
    rw [hx, hy]
  · rw [add_zero]
    refine ⟨0, ?_, hrepresentable.nearest⟩
    cases s <;> cases s' <;> rfl
  · rw [zero_add]
    refine ⟨_, ?_, hrepresentable'.nearest⟩
    show fraction? (Float.Model.pack (.finite s' m' e' hm')).unpack = _
    rw [unpack_pack_canonical (canonical_of_unpack hy), fraction?]
  · rw [add_zero]
    refine ⟨_, ?_, hrepresentable.nearest⟩
    show fraction? (Float.Model.pack (.finite s m e hm)).unpack = _
    rw [unpack_pack_canonical (canonical_of_unpack hx), fraction?]
  · have hvalue := shiftLeft_value_of_le m (min_le_left e e')
    have hvalue' := shiftLeft_value_of_le m' (min_le_right e e')
    have hsum : ((s.apply (m <<< (e - min e e').toNat : ℕ) +
        s'.apply (m' <<< (e' - min e e').toNat : ℕ) : ℤ) : ℚ) * 2 ^ min e e' =
          s.apply m * 2 ^ e + s'.apply m' * 2 ^ e' := by
      rw [Int.cast_add, add_mul, apply_cast, apply_cast, apply_cast s m, apply_cast s' m',
        mul_assoc, mul_assoc, mul_assoc, mul_assoc, hvalue, hvalue']
    rw [← hsum] at hlt ⊢
    exact exists_nearest_normalize .positive hlt

theorem sub_eq_add_neg_of_value {x y : Float} {a b : ℚ} (ha : value? x = some a)
    (hb : value? y = some b) : x - y = x + -y := by
  show Float.ofModel (Float.Model.pack (UnpackedFloat.sub Format.binary64 x.toModel.unpack
      y.toModel.unpack)) =
    Float.ofModel (Float.Model.pack (UnpackedFloat.add Format.binary64 x.toModel.unpack
      (Float.Model.pack y.toModel.unpack.neg).unpack))
  congr 2
  rcases value?_eq_some_iff.1 ha with ⟨⟨s, hx⟩, -⟩ | ⟨s, m, e, hm, hx, -⟩ <;>
    rcases value?_eq_some_iff.1 hb with ⟨⟨s', hy⟩, -⟩ | ⟨s', m', e', hm', hy, -⟩ <;>
    rw [hx, hy, UnpackedFloat.neg]
  · rw [unpack_pack_zero]
    rfl
  · rw [unpack_pack_canonical (canonical_of_unpack hy)]
    rfl
  · rw [unpack_pack_zero]
    rfl
  · rw [unpack_pack_canonical (canonical_of_unpack hy), UnpackedFloat.sub, UnpackedFloat.add]
    simp only [apply_neg, sub_eq_add_neg]

/-- **A difference is the nearest number to the exact difference.** -/
theorem rounds_sub {x y : Float} {a b : ℚ} (ha : value? x = some a) (hb : value? y = some b)
    (hlt : |a - b| < 2 ^ (1022 : ℤ)) : Rounds (x - y) (a - b) := by
  rw [sub_eq_add_neg_of_value ha hb, sub_eq_add_neg]
  rw [sub_eq_add_neg] at hlt
  exact rounds_add ha (value?_neg hb) hlt

/-! ### Products and quotients -/

theorem apply_mul (s s' : Sign) :
    (((s * s').apply 1 : ℤ) : ℚ) = ((s.apply 1 : ℤ) : ℚ) * ((s'.apply 1 : ℤ) : ℚ) := by
  rw [← Int.cast_mul]
  cases s <;> cases s' <;> rfl

theorem le_target_mul {m m' : ℕ} {e e' : ℤ} (h : Canonical m e) (h' : Canonical m' e')
    (hm : 0 < m) (hm' : 0 < m') : e + e' ≤ target (m * m') (e + e') := by
  rw [target_eq]
  by_cases hlow : e = -1074 ∧ e' = -1074
  · omega
  · have hprod : 2 ^ 52 ≤ m * m' := by
      rcases h.bits with he | hbits
      · rcases h'.bits with he' | hbits'
        · exact absurd ⟨he, he'⟩ hlow
        · exact hbits'.trans (Nat.le_mul_of_pos_left _ hm)
      · exact hbits.trans (Nat.le_mul_of_pos_right _ hm')
    have := (Nat.le_log2 (by positivity)).2 hprod
    omega

/-- **A product is the nearest number to the exact product.** -/
theorem rounds_mul {x y : Float} {a b : ℚ} (ha : value? x = some a) (hb : value? y = some b)
    (hlt : |a * b| < 2 ^ (1022 : ℤ)) : Rounds (x * y) (a * b) := by
  show ∃ r, fraction? (Float.Model.pack (UnpackedFloat.mul Format.binary64 x.toModel.unpack
    y.toModel.unpack)).unpack = some r ∧ _
  rcases value?_eq_some_iff.1 ha with ⟨⟨s, hx⟩, rfl⟩ | ⟨s, m, e, hm, hx, rfl⟩ <;>
    rcases value?_eq_some_iff.1 hb with ⟨⟨s', hy⟩, rfl⟩ | ⟨s', m', e', hm', hy, rfl⟩ <;>
    rw [hx, hy]
  · rw [mul_zero, UnpackedFloat.mul, unpack_pack_zero]
    exact ⟨0, rfl, representable_zero.nearest⟩
  · rw [zero_mul, UnpackedFloat.mul, unpack_pack_zero]
    exact ⟨0, rfl, representable_zero.nearest⟩
  · rw [mul_zero, UnpackedFloat.mul, unpack_pack_zero]
    exact ⟨0, rfl, representable_zero.nearest⟩
  · have hprod : (((s * s').apply 1 : ℤ) : ℚ) * ((m * m' : ℕ) * 2 ^ (e + e')) =
        s.apply m * 2 ^ e * (s'.apply m' * 2 ^ e') := by
      rw [two_zpow_split rfl, apply_cast s, apply_cast s', apply_mul, Nat.cast_mul]
      ring
    have hpos : 0 ≤ ((m * m' : ℕ) : ℚ) * 2 ^ (e + e') :=
      mul_nonneg (Nat.cast_nonneg _) (two_zpow_pos _).le
    rw [← hprod] at hlt ⊢
    rw [abs_mul, abs_apply_one, one_mul, abs_of_nonneg hpos] at hlt
    obtain ⟨r, hr, hnearest⟩ := exists_nearest_roundWithAccuracy (s * s') (m * m')
      (e := e + e') Nat.one_pos
      (by
        rw [Nat.div_one]
        exact le_target_mul (canonical_of_unpack hx) (canonical_of_unpack hy) hm hm')
      (by
        rw [Nat.cast_one, div_one]
        exact hlt)
    rw [Nat.div_one, Nat.mod_one] at hr
    rw [Nat.cast_one, div_one] at hnearest
    exact ⟨r, hr, hnearest⟩

theorem apply_div (s s' : Sign) :
    (((s / s').apply 1 : ℤ) : ℚ) = ((s.apply 1 : ℤ) : ℚ) / ((s'.apply 1 : ℤ) : ℚ) := by
  cases s <;> cases s' <;> norm_num [Sign.apply] <;> rfl

theorem log2_le_log2_div (m : ℕ) {m' : ℕ} (hm : 0 < m) (hm' : 0 < m') :
    m.log2 ≤ (m / m').log2 + m'.log2 + 1 := by
  by_contra hlt
  have hpow : 2 ^ ((m / m').log2 + 1) * m' ≤ m := by
    calc 2 ^ ((m / m').log2 + 1) * m' ≤ 2 ^ ((m / m').log2 + 1) * 2 ^ (m'.log2 + 1) :=
          Nat.mul_le_mul_left _ Nat.lt_log2_self.le
      _ = 2 ^ ((m / m').log2 + 1 + (m'.log2 + 1)) := (Nat.pow_add ..).symm
      _ ≤ 2 ^ m.log2 := Nat.pow_le_pow_right two_pos (by omega)
      _ ≤ m := Nat.log2_self_le hm.ne'
  exact Nat.lt_log2_self.not_ge ((Nat.le_div_iff_mul_le hm').2 hpow)

/-- Mantissas of any length are divided with one rounding. -/
theorem exists_nearest_div (s s' : Sign) {m m' : ℕ} {e e' : ℤ} (hm : 0 < m) (hm' : 0 < m')
    (hlt : |((s.apply m : ℤ) * 2 ^ e / ((s'.apply m' : ℤ) * 2 ^ e') : ℚ)| < 2 ^ (1022 : ℤ)) :
    ∃ r, fraction? (Float.Model.pack (UnpackedFloat.div Format.binary64 (.finite s m e hm)
        (.finite s' m' e' hm'))).unpack = some r ∧
      Nearest ((s.apply m : ℤ) * 2 ^ e / ((s'.apply m' : ℤ) * 2 ^ e')) r := by
  obtain ⟨t, ht⟩ : ∃ t, t = min (e - e')
      (Format.binary64.targetExponent (totalExponent m e - totalExponent m' e')) := ⟨_, rfl⟩
  have htarget : Format.binary64.targetExponent (totalExponent m e - totalExponent m' e') =
      max (m.log2 + e - (m'.log2 + e') - 53) (-1074) := by
    simp [Format.targetExponent, totalExponent, Format.mantissaBits, Format.minExponent]
    omega
  have hcore : UnpackedFloat.div Format.binary64 (.finite s m e hm) (.finite s' m' e' hm') =
      roundWithAccuracy Format.binary64 (s / s') (m <<< (e - e' - t).toNat / m') t
        (accuracyOfFraction (m <<< (e - e' - t).toNat % m') m') := by
    rw [UnpackedFloat.div, divCore, ← ht]
  have hquot : (((s / s').apply 1 : ℤ) : ℚ) *
      ((m <<< (e - e' - t).toNat : ℕ) / m' * 2 ^ t) =
        s.apply m * 2 ^ e / (s'.apply m' * 2 ^ e') := by
    have hvalue := shiftLeft_value_of_le m (show t ≤ e - e' by omega)
    have hsplit := two_zpow_split (show e = e - e' + e' by omega)
    have hpos := (two_zpow_pos e').ne'
    have hsign : ((s'.apply 1 : ℤ) : ℚ) ≠ 0 := by
      rw [← abs_pos, abs_apply_one]
      exact one_pos
    have hm'' : (m' : ℚ) ≠ 0 := by exact_mod_cast hm'.ne'
    have hunits : ((m <<< (e - e' - t).toNat : ℕ) / m' * 2 ^ t : ℚ) = m * 2 ^ (e - e') / m' := by
      rw [div_mul_eq_mul_div, hvalue]
    rw [apply_cast s, apply_cast s', apply_div, hunits, hsplit]
    field_simp
  have hle : t ≤ target (m <<< (e - e' - t).toNat / m') t := by
    have hlog := log2_shiftLeft hm (e - e' - t).toNat
    have hshift : 0 < m <<< (e - e' - t).toNat := by
      rw [Nat.shiftLeft_eq]
      positivity
    have hdiv := log2_le_log2_div (m <<< (e - e' - t).toNat) hshift hm'
    rw [target_eq]
    omega
  have hpos : 0 ≤ ((m <<< (e - e' - t).toNat : ℕ) / m' : ℚ) * 2 ^ t :=
    mul_nonneg (div_nonneg (Nat.cast_nonneg _) (Nat.cast_nonneg _)) (two_zpow_pos t).le
  rw [hcore, ← hquot]
  rw [← hquot, abs_mul, abs_apply_one, one_mul, abs_of_nonneg hpos] at hlt
  exact exists_nearest_roundWithAccuracy (s / s') _ hm' hle hlt

/-- **A quotient is the nearest number to the exact quotient.** -/
theorem rounds_div {x y : Float} {a b : ℚ} (ha : value? x = some a) (hb : value? y = some b)
    (hne : b ≠ 0) (hlt : |a / b| < 2 ^ (1022 : ℤ)) : Rounds (x / y) (a / b) := by
  show ∃ r, fraction? (Float.Model.pack (UnpackedFloat.div Format.binary64 x.toModel.unpack
    y.toModel.unpack)).unpack = some r ∧ _
  rcases value?_eq_some_iff.1 hb with ⟨-, rfl⟩ | ⟨s', m', e', hm', hy, rfl⟩
  · exact absurd rfl hne
  rcases value?_eq_some_iff.1 ha with ⟨⟨s, hx⟩, rfl⟩ | ⟨s, m, e, hm, hx, rfl⟩
  · rw [hx, hy, zero_div, UnpackedFloat.div, unpack_pack_zero]
    exact ⟨0, rfl, representable_zero.nearest⟩
  rw [hx, hy]
  exact exists_nearest_div s s' hm hm' hlt

/-! ### Square roots -/

theorem log2_sqrt {m : ℕ} (hm : 0 < m) : m.sqrt.log2 = m.log2 / 2 := by
  have hroot : 0 < m.sqrt := Nat.sqrt_pos.2 hm
  have hlow := Nat.log2_self_le hroot.ne'
  have hhigh : m.sqrt < 2 ^ (m.sqrt.log2 + 1) := Nat.lt_log2_self
  have hle : m.sqrt.log2 + m.sqrt.log2 ≤ m.log2 := by
    rw [Nat.le_log2 hm.ne', Nat.pow_add]
    exact (Nat.mul_le_mul hlow hlow).trans (Nat.sqrt_le m)
  have hlt : m.log2 < m.sqrt.log2 + 1 + (m.sqrt.log2 + 1) := by
    rw [Nat.log2_lt hm.ne', Nat.pow_add]
    exact (Nat.lt_succ_sqrt m).trans_le (Nat.mul_le_mul hhigh hhigh)
  omega

/-- The root of `M` with its last `k` bits cut off, rounded down or up, and squared. -/
theorem abs_sq_sub_le {M k R : ℕ} (hbits : 2 ^ 52 ≤ M.sqrt / 2 ^ k) (hdown : M.sqrt / 2 ^ k ≤ R)
    (hup : R ≤ M.sqrt / 2 ^ k + 1) :
    |(R * 2 ^ k : ℚ) * (R * 2 ^ k) - M| ≤ 2 ^ (-50 : ℤ) * M := by
  have hlow : M.sqrt / 2 ^ k * 2 ^ k ≤ M.sqrt := Nat.div_mul_le_self _ _
  have hhigh : M.sqrt + 1 ≤ (M.sqrt / 2 ^ k + 1) * 2 ^ k := by
    rw [Nat.add_mul, Nat.one_mul]
    exact Nat.lt_div_mul_add (by positivity)
  have hsq := (Nat.mul_le_mul hlow hlow).trans (Nat.sqrt_le M)
  have hsq' := (Nat.lt_succ_sqrt M).le.trans (Nat.mul_le_mul hhigh hhigh)
  have hRlow := Nat.mul_le_mul (Nat.mul_le_mul_right (2 ^ k) hdown)
    (Nat.mul_le_mul_right (2 ^ k) hdown)
  have hRhigh := Nat.mul_le_mul (Nat.mul_le_mul_right (2 ^ k) hup)
    (Nat.mul_le_mul_right (2 ^ k) hup)
  generalize M.sqrt / 2 ^ k = f at *
  have hgap : ((f : ℚ) + 1) * 2 ^ k * ((f + 1) * 2 ^ k) - f * 2 ^ k * (f * 2 ^ k) ≤
      2 ^ (-50 : ℤ) * (f * 2 ^ k * (f * 2 ^ k)) := by
    have hf : (2 : ℚ) ^ 52 ≤ f := by exact_mod_cast hbits
    have hsmall : 2 * (f : ℚ) + 1 ≤ 2 ^ (-50 : ℤ) * (f * f) := by
      have hpow : (2 : ℚ) ^ (-50 : ℤ) = 1 / 2 ^ 50 := by norm_num
      have := mul_le_mul_of_nonneg_right hf (Nat.cast_nonneg f)
      rw [hpow]
      linarith
    calc ((f : ℚ) + 1) * 2 ^ k * ((f + 1) * 2 ^ k) - f * 2 ^ k * (f * 2 ^ k)
        = (2 * f + 1) * (2 ^ k * 2 ^ k) := by ring
      _ ≤ 2 ^ (-50 : ℤ) * (f * f) * (2 ^ k * 2 ^ k) :=
          mul_le_mul_of_nonneg_right hsmall (by positivity)
      _ = 2 ^ (-50 : ℤ) * (f * 2 ^ k * (f * 2 ^ k)) := by ring
  have hM : (f : ℚ) * 2 ^ k * (f * 2 ^ k) ≤ M := by exact_mod_cast hsq
  have hM' : (M : ℚ) ≤ (f + 1) * 2 ^ k * ((f + 1) * 2 ^ k) := by exact_mod_cast hsq'
  have hR : (f : ℚ) * 2 ^ k * (f * 2 ^ k) ≤ R * 2 ^ k * (R * 2 ^ k) := by exact_mod_cast hRlow
  have hR' : (R : ℚ) * 2 ^ k * (R * 2 ^ k) ≤ (f + 1) * 2 ^ k * ((f + 1) * 2 ^ k) := by
    exact_mod_cast hRhigh
  have hscale := mul_le_mul_of_nonneg_left hM (two_zpow_pos (-50)).le
  rw [abs_le]
  constructor <;> linarith

theorem value?_sqrt_zero {x : Float} (h : value? x = some 0) : value? x.sqrt = some 0 := by
  show fraction? (Float.Model.pack (UnpackedFloat.sqrt Format.binary64
    x.toModel.unpack)).unpack = _
  rcases value?_eq_some_iff.1 h with ⟨⟨s, hx⟩, -⟩ | ⟨s, m, e, hm, hx, hzero⟩
  · rw [hx, UnpackedFloat.sqrt, unpack_pack_zero]
    rfl
  · have hsize : (m : ℚ) * 2 ^ e ≠ 0 :=
      mul_ne_zero (by exact_mod_cast hm.ne') (two_zpow_pos e).ne'
    have habs : |((s.apply m : ℤ) : ℚ) * 2 ^ e| = 0 := by rw [← hzero, abs_zero]
    rw [apply_cast, mul_assoc, abs_mul, abs_apply_one, one_mul, abs_eq_zero] at habs
    exact absurd habs hsize

/-- A root is the rounding of a whole root, taken of a mantissa with enough bits. -/
theorem exists_sqrt_eq_roundWithAccuracy {m : ℕ} {e : ℤ} (hm : 0 < m) (h : Canonical m e) :
    ∃ (M : ℕ) (t : ℤ) (accuracy : Accuracy),
      UnpackedFloat.sqrt Format.binary64 (.finite .positive m e hm) =
        roundWithAccuracy Format.binary64 .positive M.sqrt t accuracy ∧
      (M : ℚ) * 2 ^ (2 * t) = m * 2 ^ e ∧ t ≤ target M.sqrt t ∧ -1074 < target M.sqrt t ∧
        target M.sqrt t ≤ 970 := by
  obtain ⟨t, ht⟩ : ∃ t, t = min (e.ediv 2)
      (Format.binary64.targetExponent ((totalExponent m e + 1).ediv 2)) := ⟨_, rfl⟩
  have htarget : Format.binary64.targetExponent ((totalExponent m e + 1).ediv 2) =
      max ((m.log2 + e + 2) / 2 - 53) (-1074) := by
    show max ((((m.log2 : ℤ) + 1 + e) + 1) / 2 - (53 : ℤ)) (-1074) = _
    congr 3
    omega
  have ht' : t = min (e / 2) (max ((m.log2 + e + 2) / 2 - 53) (-1074)) := by
    rw [ht, htarget]
    rfl
  obtain ⟨accuracy, hcore⟩ : ∃ accuracy, UnpackedFloat.sqrt Format.binary64
      (.finite .positive m e hm) = roundWithAccuracy Format.binary64 .positive
        (m <<< (e - 2 * t).toNat).sqrt t accuracy := by
    rw [UnpackedFloat.sqrt, sqrtCore, ← ht]
    exact ⟨_, rfl⟩
  have hlog : (m <<< (e - 2 * t).toNat).sqrt.log2 = (m.log2 + (e - 2 * t).toNat) / 2 := by
    have hshift : 0 < m <<< (e - 2 * t).toNat := by
      rw [Nat.shiftLeft_eq]
      exact Nat.mul_pos hm (by positivity)
    rw [log2_sqrt hshift, log2_shiftLeft hm]
  have hm' : m.log2 < 53 := (Nat.log2_lt hm.ne').2 h.mantissa_lt
  have hleast := h.least_le
  have hgreatest := h.exponent_le
  have hq := target_eq (m <<< (e - 2 * t).toNat).sqrt t
  exact ⟨_, t, accuracy, hcore, shiftLeft_value_of_le m (by omega), by omega, by omega, by omega⟩

/-- **The square of a root is off by its `2 ^ 50`th part at most.** -/
theorem exists_value_sqrt {x : Float} {v : ℚ} (hv : value? x = some v) (hpos : 0 < v) :
    ∃ r, value? x.sqrt = some r ∧ 0 < r ∧ |r * r - v| ≤ 2 ^ (-50 : ℤ) * v := by
  show ∃ r, fraction? (Float.Model.pack (UnpackedFloat.sqrt Format.binary64
    x.toModel.unpack)).unpack = some r ∧ _
  rcases value?_eq_some_iff.1 hv with ⟨-, rfl⟩ | ⟨s, m, e, hm, hx, rfl⟩
  · exact absurd hpos (lt_irrefl 0)
  obtain rfl : s = .positive := by
    cases s with
    | positive => rfl
    | negative =>
      have hnonneg : 0 ≤ (m : ℚ) * 2 ^ e := mul_nonneg (Nat.cast_nonneg m) (two_zpow_pos e).le
      rw [Sign.apply, Int.cast_neg, neg_mul, Int.cast_natCast] at hpos
      linarith
  obtain ⟨M, t, accuracy, hcore, hvalue, hle, hleast, hgreatest⟩ :=
    exists_sqrt_eq_roundWithAccuracy hm (canonical_of_unpack hx)
  obtain ⟨hbits, hbits'⟩ := settled_bits hle accuracy
  obtain ⟨hdown, hup⟩ := roundedMantissa_bounds
    (ExtendedMantissa.ofMantissaAndAccuracy M.sqrt accuracy >>> excess M.sqrt t)
  rw [mantissa_shiftRight, mantissa_ofMantissaAndAccuracy] at hdown hup
  have hlow : 2 ^ 52 ≤ M.sqrt / 2 ^ excess M.sqrt t := by
    rw [Nat.le_div_iff_mul_le (by positivity), ← Nat.pow_add]
    exact (bits_of_excess hle).2.resolve_left (by omega)
  have hnear := abs_sq_sub_le hlow hdown hup
  have hexcess : (excess M.sqrt t : ℤ) = target M.sqrt t - t := Int.toNat_of_nonneg (by omega)
  rw [hx, hcore, roundWithAccuracy_eq_settled _ hle,
    fraction?_settled hbits (by omega) hgreatest hbits']
  generalize (ExtendedMantissa.ofMantissaAndAccuracy M.sqrt accuracy >>>
    excess M.sqrt t).roundedMantissa = R at *
  have hroot : ((Sign.positive.apply 1 : ℤ) : ℚ) * (R * 2 ^ target M.sqrt t) =
      R * 2 ^ excess M.sqrt t * 2 ^ t := by
    rw [two_zpow_split (show target M.sqrt t = excess M.sqrt t + t by omega), zpow_natCast]
    simp [Sign.apply, mul_assoc]
  refine ⟨_, rfl, ?_, ?_⟩ <;> rw [hroot]
  · have hR : (0 : ℚ) < R := by
      have : 0 < R := by omega
      exact_mod_cast this
    exact mul_pos (mul_pos hR (by positivity)) (two_zpow_pos t)
  · have hsq : (R : ℚ) * 2 ^ excess M.sqrt t * 2 ^ t * (R * 2 ^ excess M.sqrt t * 2 ^ t) -
        (Sign.positive.apply m : ℤ) * 2 ^ e =
          (R * 2 ^ excess M.sqrt t * (R * 2 ^ excess M.sqrt t) - M) * 2 ^ (2 * t) := by
      rw [Sign.apply, Int.cast_natCast, ← hvalue, two_mul, two_zpow_split rfl]
      ring
    rw [hsq, abs_mul, abs_of_pos (two_zpow_pos (2 * t)), Sign.apply, Int.cast_natCast, ← hvalue,
      ← mul_assoc (2 ^ (-50 : ℤ))]
    exact mul_le_mul_of_nonneg_right hnear (two_zpow_pos _).le

end FactorPortfolio.Binary64
