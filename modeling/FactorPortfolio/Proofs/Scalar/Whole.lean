import FactorPortfolio.Proofs.Scalar.Rounding

/-!
# Whole numbers in binary64

The sign, the mantissa and the exponent that texts are computed from (`binary`, `isNegative`) are
read off the bits by shifts and masks.  They are those of the arithmetic (`binary_of_finite`), so a
number is taken for whole exactly when its value is (`whole?_eq_some_iff`).  Up to `2 ^ 53` every
whole number is one of binary64, and a numeral that writes one is read as it, with or without a
point and zeros behind it (`value?_ofScientific`).
-/

namespace FactorPortfolio.Binary64

open Float.Model Float.Model.UnpackedFloat Decimal

/-! ### Shifts and masks -/

theorem toNat_shift_and_mask (b : UInt64) :
    ((b >>> 52) &&& 0x7FF).toNat = (@unpackExponent Format.binary64 b.toBitVec).toNat := by
  rw [unpackExponent, BitVec.toNat_cast, BitVec.extractLsb_toNat, UInt64.toNat_and,
    UInt64.toNat_shiftRight]
  exact Nat.and_two_pow_sub_one_eq_mod _ 11

theorem toNat_and_mask (b : UInt64) :
    (b &&& 0xFFFFFFFFFFFFF).toNat = (@unpackMantissa Format.binary64 b.toBitVec).toNat := by
  rw [unpackMantissa, BitVec.toNat_cast, BitVec.extractLsb_toNat, UInt64.toNat_and]
  exact Nat.and_two_pow_sub_one_eq_mod _ 52

theorem shift_eq_one_iff (b : UInt64) : (b >>> 63 == 1) = true ↔
    Sign.ofBitVec (@unpackSign Format.binary64 b.toBitVec) = .negative := by
  have hbit : (b >>> 63).toNat = (@unpackSign Format.binary64 b.toBitVec).toNat := by
    rw [unpackSign, BitVec.toNat_cast, BitVec.extractLsb_toNat, UInt64.toNat_shiftRight]
    have := b.toNat_lt
    show b.toNat >>> 63 = b.toNat >>> 63 % 2 ^ 1
    simp only [Nat.shiftRight_eq_div_pow]
    omega
  have hlt : (@unpackSign Format.binary64 b.toBitVec).toNat < 2 := BitVec.isLt _
  rw [beq_iff_eq, ← UInt64.toNat_inj, hbit, Sign.ofBitVec]
  split
  · next hzero => simp [hzero]
  · next hzero =>
    refine iff_of_true ?_ rfl
    have hne : (@unpackSign Format.binary64 b.toBitVec).toNat ≠ 0 :=
      fun h => hzero (BitVec.eq_of_toNat_eq h)
    show _ = 1
    omega

/-! ### The number in the bits -/

section

variable {x : Float} {s : Sign} {m : ℕ} {e : ℤ} {hm : 0 < m}

theorem binary_of_zero (h : x.toModel.unpack = .zero s) :
    (binary x).m = 0 ∧ (binary x).q = -1074 := by
  rw [Float.Model.unpack, UnpackedFloat.unpack] at h
  dsimp only at h
  split at h
  · split at h <;> cases h
  · split at h
    · next hexponent =>
      split at h
      · next hmantissa =>
        rw [binary, Binary.ofBits, toNat_shift_and_mask, toNat_and_mask, Float.toBits, hexponent,
          hmantissa]
        exact ⟨rfl, rfl⟩
      · cases h
    · cases h

/-- **What is read off the bits** is what the arithmetic computes with. -/
theorem binary_of_finite (h : x.toModel.unpack = .finite s m e hm) :
    (binary x).m = m ∧ (binary x).q = e ∧ (isNegative x = true ↔ s = .negative) := by
  have hsign := shift_eq_one_iff x.toModel.toBits
  have hbias : ((Format.binary64.exponentBias : ℤ) +
      (Format.binary64.mantissaBitsWithoutImplicit : ℤ)) = 1075 := by
    decide
  rw [Float.Model.unpack, UnpackedFloat.unpack] at h
  dsimp only at h
  rw [hbias] at h
  rw [isNegative, binary, Binary.ofBits, toNat_shift_and_mask, toNat_and_mask, Float.toBits]
  split at h
  · split at h <;> cases h
  · split at h
    · next hexponent =>
      split at h
      · cases h
      · cases h
        rw [hexponent]
        exact ⟨rfl, rfl, hsign⟩
    · next hexponent =>
      cases h
      have hne : ((@unpackExponent Format.binary64 x.toModel.toBits.toBitVec).toNat == 0) = false :=
        beq_eq_false_iff_ne.2 fun hzero => hexponent (BitVec.eq_of_toNat_eq hzero)
      rw [hne]
      exact ⟨(toNat_one_append _).symm, rfl, hsign⟩

end

/-! ### Whole numbers -/

section

variable {x : Float} {n : ℤ}

theorem isFinite_eq (x : Float) : x.isFinite = x.toModel.unpack.isFinite := rfl

theorem apply_mul_two_zpow_eq_iff (s : Sign) (m : ℕ) (e : ℤ) :
    ((s.apply m : ℤ) : ℚ) * 2 ^ e = n ↔ s.apply m * 2 ^ e.toNat = n * 2 ^ (-e).toNat := by
  obtain ⟨k, rfl | rfl⟩ := e.eq_nat_or_neg
  · rw [zpow_natCast, Int.toNat_natCast, Int.toNat_neg_natCast, pow_zero, mul_one]
    exact_mod_cast Iff.rfl
  · rw [neg_neg, Int.toNat_natCast, Int.toNat_neg_natCast, pow_zero, mul_one, zpow_neg,
      zpow_natCast, ← div_eq_mul_inv, div_eq_iff (by positivity)]
    exact_mod_cast Iff.rfl

theorem whole?_of_finite {s : Sign} {m : ℕ} {e : ℤ} {hm : 0 < m}
    (h : x.toModel.unpack = .finite s m e hm) :
    whole? x = if 0 ≤ e then some (s.apply (m * 2 ^ e.toNat : ℕ))
      else if m % 2 ^ (-e).toNat = 0 then some (s.apply (m / 2 ^ (-e).toNat : ℕ)) else none := by
  obtain ⟨hmantissa, hexponent, hsign⟩ := binary_of_finite h
  have hfinite : x.isFinite = true := by
    rw [isFinite_eq, h]
    rfl
  have happly : ∀ k : ℕ, (if isNegative x then -1 else 1) * (k : ℤ) = s.apply k := by
    intro k
    cases s <;> simp [hsign, Sign.apply]
  simp only [whole?, hfinite, hmantissa, hexponent, happly, power, beq_iff_eq, Bool.not_true,
    Bool.false_eq_true, if_false]
  split
  · rfl
  · next hneg =>
    rw [show e.natAbs = (-e).toNat by omega]
    rfl

/-- **A number is taken for whole** exactly when its value is. -/
theorem whole?_eq_some_iff : whole? x = some n ↔ value? x = some (n : ℚ) := by
  cases hx : x.toModel.unpack with
  | zero s =>
    obtain ⟨hmantissa, hexponent⟩ := binary_of_zero hx
    have hvalue : value? x = some 0 := by rw [value?, hx, fraction?]
    have hzero : whole? x = some 0 := by
      simp [whole?, isFinite_of_value hvalue, hmantissa, hexponent]
    rw [hzero, hvalue, Option.some.injEq, Option.some.injEq]
    exact_mod_cast Iff.rfl
  | finite s m e hm =>
    rw [whole?_of_finite hx, value?, hx, fraction?, Option.some.injEq, apply_mul_two_zpow_eq_iff]
    split
    · next he =>
      rw [Option.some.injEq, show (-e).toNat = 0 by omega, pow_zero, mul_one, Nat.cast_mul,
        Nat.cast_pow, Nat.cast_ofNat]
      cases s <;> simp [Sign.apply]
    · next he =>
      rw [show e.toNat = 0 by omega, pow_zero, mul_one]
      generalize (-e).toNat = k
      split
      · next hdvd =>
        obtain ⟨c, rfl⟩ := Nat.dvd_of_mod_eq_zero hdvd
        have happly : s.apply (2 ^ k * c : ℕ) = s.apply c * 2 ^ k := by
          cases s <;> simp [Sign.apply, mul_comm]
        rw [Option.some.injEq, Nat.mul_div_cancel_left _ (by positivity), happly,
          mul_left_inj' (by positivity)]
      · next hdvd =>
        refine iff_of_false (Option.some_ne_none n).symm fun h => hdvd ?_
        have habs : m = n.natAbs * 2 ^ k := by
          have hboth := congrArg Int.natAbs h
          rw [Int.natAbs_mul, Int.natAbs_pow] at hboth
          cases s <;> simpa [Sign.apply] using hboth
        rw [habs, Nat.mul_mod_left]
  | infinity s =>
    simp [whole?, isFinite_eq, value?, hx, fraction?, UnpackedFloat.isFinite]
  | notANumber =>
    simp [whole?, isFinite_eq, value?, hx, fraction?, UnpackedFloat.isFinite]

end

/-! ### Literals -/

theorem value?_toFloat {n : ℕ} (hn : n < 2 ^ 53) :
    value? n.toUInt64.toFloat = some (n : ℚ) := by
  rcases Nat.eq_zero_or_pos n with rfl | hpos
  · rfl
  · show fraction? (Float.Model.ofUInt64 n.toUInt64).unpack = _
    rw [unpack_ofUInt64 hpos hn, fraction?_lifted hpos hn]

theorem value?_powerOfTen : ∀ k (h : k < Float.exactlyRepresentablePowersOfTen.size),
    value? (Float.exactlyRepresentablePowersOfTen[k]) = some (10 ^ k) := by
  decide +kernel

theorem lt_two_zpow_of_le {n : ℕ} (hn : n ≤ 2 ^ 53) : |(n : ℚ)| < 2 ^ (1022 : ℤ) := by
  rw [Nat.abs_cast]
  calc (n : ℚ) ≤ 2 ^ (53 : ℤ) := by exact_mod_cast hn
    _ < 2 ^ (1022 : ℤ) := zpow_lt_zpow_right₀ one_lt_two (by norm_num)

/-- Digits that are too many for one division of numbers are divided as they are. -/
theorem value?_ofScientific_model {n k : ℕ} (hpos : 0 < n) (hn : n ≤ 2 ^ 53) (hk : 0 < k) :
    fraction? (Float.Model.ofScientific (n * 10 ^ k) (Int.negOfNat k)).unpack = some (n : ℚ) := by
  have hdigits : 0 < n * 10 ^ k := by positivity
  have hlog : k ≤ (n * 10 ^ k).log2 := by
    refine (Nat.le_log2 hdigits.ne').2 ?_
    calc 2 ^ k ≤ 10 ^ k := Nat.pow_le_pow_left (by decide) k
      _ ≤ n * 10 ^ k := Nat.le_mul_of_pos_left _ hpos
  have hquotient : ((Sign.positive.apply (n * 10 ^ k : ℕ) : ℤ) * 2 ^ (0 : ℤ) /
      ((Sign.positive.apply (10 ^ k : ℕ) : ℤ) * 2 ^ (0 : ℤ)) : ℚ) = n := by
    simp only [Sign.apply, zpow_zero, mul_one]
    push_cast
    exact mul_div_cancel_right₀ _ (by positivity)
  have hlt := lt_two_zpow_of_le hn
  rw [← hquotient] at hlt
  obtain ⟨r, hr, hnearest⟩ := exists_nearest_div .positive .positive hdigits
    (show 0 < 10 ^ k by positivity) hlt
  rw [hquotient] at hnearest
  have hmodel : Float.Model.ofScientific (n * 10 ^ k) (Int.negOfNat k) =
      Float.Model.pack (UnpackedFloat.div Format.binary64
        (.finite .positive (n * 10 ^ k) 0 hdigits)
        (.finite .positive (10 ^ k) 0 (by positivity))) := by
    have hbits : (2 : ℤ) ^ Format.binary64.exponentBits = 2048 := by decide
    have hneg : Int.negOfNat k = -(k : ℤ) := Int.negOfNat_eq
    rw [Float.Model.ofScientific, UnpackedFloat.ofScientific, dif_neg hdigits.ne', hneg, hbits,
      if_neg (by omega), if_neg (by omega), if_neg (by omega)]
    simp only [neg_neg, Int.toNat_natCast]
  rw [hmodel, hr, hnearest.eq (representable_natCast hn)]

/-- **A numeral that writes a whole number** has this value: digits of which the last ones, behind
the point, are zeros. -/
theorem value?_ofScientific {n : ℕ} (hn : n ≤ 2 ^ 53) (k : ℕ) :
    value? (Float.ofScientific (n * 10 ^ k) true k) = some (n : ℚ) := by
  by_cases hfew : n * 10 ^ k < 2 ^ 53 ∧ k ≤ 22
  · have hpower := value?_powerOfTen k (Nat.lt_succ_of_le hfew.2)
    have hquotient : (((n * 10 ^ k : ℕ) : ℚ) / 10 ^ k) = n := by
      push_cast
      exact mul_div_cancel_right₀ _ (by positivity)
    obtain ⟨r, hr, hnearest⟩ := rounds_div (value?_toFloat hfew.1) hpower (by positivity)
      (hquotient ▸ lt_two_zpow_of_le hn)
    rw [hquotient] at hnearest
    rw [Float.ofScientific, dif_pos hfew, if_pos rfl, ← hnearest.eq (representable_natCast hn)]
    exact hr
  · rw [Float.ofScientific, dif_neg hfew, if_pos rfl]
    show fraction? (Float.Model.ofScientific (n * 10 ^ k) (Int.negOfNat k)).unpack = _
    rcases Nat.eq_zero_or_pos n with rfl | hpos
    · rw [Nat.zero_mul, Float.Model.ofScientific, UnpackedFloat.ofScientific, dif_pos rfl,
        unpack_pack_zero, fraction?, Nat.cast_zero]
    rcases Nat.eq_zero_or_pos k with rfl | hk
    · obtain rfl : n = 2 ^ 53 := by omega
      have hbits : (Float.Model.ofScientific (2 ^ 53 * 10 ^ 0) (Int.negOfNat 0)).unpack =
          .finite .positive (2 ^ 52) 1 (by decide) := by
        rfl
      rw [hbits, fraction?]
      norm_num [Sign.apply]
    · exact value?_ofScientific_model hpos hn hk

end FactorPortfolio.Binary64
