import FactorPortfolio.Proofs.Scalar.Nearest
import FactorPortfolio.Proofs.Scalar.Quotient

/-!
# The values of binary64 numbers

A finite number has a rational value (`value?`), which decides how it compares (`lt_iff_of_value`,
`le_iff_of_value`, `beq_iff_of_value`). What is packed into bits and unpacked again is the same if
it is `Canonical`, and all that is unpacked is (`canonical_of_unpack`).
-/

namespace FactorPortfolio.Binary64

open Float.Model Float.Model.UnpackedFloat

/-- The number that an unpacked one stands for. -/
def fraction? : UnpackedFloat → Option ℚ
  | .zero _ => some 0
  | .finite s m e _ => some (s.apply m * 2 ^ e)
  | _ => none

/-- The value of a number; infinities and what is no number have none. -/
def value? (x : Float) : Option ℚ := fraction? x.toModel.unpack

/-- A mantissa of 53 bits, or of fewer with the least exponent. -/
structure Canonical (m : ℕ) (e : ℤ) : Prop where
  mantissa_lt : m < 2 ^ 53
  least_le : -1074 ≤ e
  exponent_le : e ≤ 971
  bits : e = -1074 ∨ 2 ^ 52 ≤ m

/-! ### Bits -/

/-- The leading bit of a mantissa, which is not stored. -/
theorem toNat_one_append (b : BitVec 52) : (1#1 ++ b).toNat = 2 ^ 52 + b.toNat := by
  rw [BitVec.toNat_append, ← Nat.shiftLeft_add_eq_or_of_lt (BitVec.isLt _)]
  rfl

theorem canonical_of_unpack {x : Float.Model} {s : Sign} {m : ℕ} {e : ℤ} {hm : 0 < m}
    (h : x.unpack = .finite s m e hm) : Canonical m e := by
  rw [Float.Model.unpack, UnpackedFloat.unpack] at h
  dsimp only at h
  have hmantissa : (@unpackMantissa Format.binary64 x.toBits.toBitVec).toNat < 2 ^ 52 :=
    (@unpackMantissa Format.binary64 x.toBits.toBitVec).isLt
  have hexponent : (@unpackExponent Format.binary64 x.toBits.toBitVec).toNat < 2 ^ 11 :=
    (@unpackExponent Format.binary64 x.toBits.toBitVec).isLt
  have hbias : ((Format.binary64.exponentBias : ℤ) +
      (Format.binary64.mantissaBitsWithoutImplicit : ℤ)) = 1075 := by
    decide
  rw [hbias] at h
  split at h
  · split at h <;> cases h
  · rename_i hones
    split at h
    · rename_i hzero
      split at h
      · cases h
      · cases h
        have hnone : (@unpackExponent Format.binary64 x.toBits.toBitVec).toNat = 0 := by
          rw [hzero]
          rfl
        exact ⟨by omega, by omega, by omega, .inl (by omega)⟩
    · rename_i hzero
      cases h
      have hpos : (@unpackExponent Format.binary64 x.toBits.toBitVec).toNat ≠ 0 :=
        fun h => hzero (BitVec.eq_of_toNat_eq h)
      have hmax : (@unpackExponent Format.binary64 x.toBits.toBitVec).toNat ≠ 2047 :=
        fun h => hones (BitVec.eq_of_toNat_eq h)
      rw [toNat_one_append]
      exact ⟨by omega, by omega, by omega, .inr (by omega)⟩

theorem unpack_pack_subnormal {s : Sign} {m : ℕ} (hm : 0 < m) (hlt : m < 2 ^ 52) :
    (Float.Model.pack (.finite s m (-1074) hm)).unpack = .finite s m (-1074) hm := by
  have hlog : m.log2 + 1 ≠ 53 := by
    have := (Nat.log2_lt hm.ne').2 hlt
    omega
  have hmantissa : (BitVec.ofNat 52 m).toNat = m := by
    rw [BitVec.toNat_ofNat, Nat.mod_eq_of_lt hlt]
  have hne : BitVec.ofNat 52 m ≠ 0#52 := by
    intro h
    have := congrArg BitVec.toNat h
    rw [hmantissa] at this
    exact hm.ne' this
  have hpack : UnpackedFloat.pack Format.binary64 (.finite s m (-1074) hm) =
      packComponents Format.binary64 s 0#11 (BitVec.ofNat 52 m) := by
    rw [UnpackedFloat.pack]
    change (if 2 ^ 11 ≤ ((-1074 : ℤ) + (1023 : ℤ) + (52 : ℤ)).toNat + 1 then _
      else if m.log2 + 1 = 53 then _ else _) = _
    rw [if_neg (by decide), if_neg hlog]
  change UnpackedFloat.unpack Format.binary64
    (UnpackedFloat.pack Format.binary64 (.finite s m (-1074) hm)) = _
  rw [hpack]
  simp only [UnpackedFloat.unpack, unpackMantissa_packComponents, unpackExponent_packComponents,
    unpackSign_packComponents, Sign.ofBitVec_toBitVec]
  rw [if_neg (by decide), if_pos trivial, dif_neg hne]
  simp only [hmantissa]
  rfl

/-- **What is canonical survives in bits.** -/
theorem unpack_pack_canonical {s : Sign} {m : ℕ} {e : ℤ} (h : Canonical m e) (hm : 0 < m) :
    (Float.Model.pack (.finite s m e hm)).unpack = .finite s m e hm := by
  by_cases hlow : 2 ^ 52 ≤ m
  · exact unpack_pack_finite hlow h.mantissa_lt h.least_le h.exponent_le hm
  · obtain rfl : e = -1074 := h.bits.resolve_right hlow
    exact unpack_pack_subnormal hm (not_le.1 hlow)

theorem unpack_pack_zero (s : Sign) : (Float.Model.pack (.zero s)).unpack = .zero s := by
  cases s <;> rfl

/-! ### Values -/

theorem apply_cast (s : Sign) (m : ℕ) : ((s.apply m : ℤ) : ℚ) = (s.apply 1 : ℤ) * m := by
  cases s <;> simp [Sign.apply]

theorem abs_apply_one (s : Sign) : |((s.apply 1 : ℤ) : ℚ)| = 1 := by
  cases s <;> simp [Sign.apply]

theorem apply_neg (s : Sign) (m : ℤ) : (-s).apply m = -s.apply m := by
  cases s with
  | positive => rfl
  | negative => exact (neg_neg m).symm

theorem value?_eq_some_iff {x : Float} {a : ℚ} : value? x = some a ↔
    (∃ s, x.toModel.unpack = .zero s) ∧ a = 0 ∨
      ∃ s m e hm, x.toModel.unpack = .finite s m e hm ∧ a = s.apply m * 2 ^ e := by
  rw [value?]
  cases x.toModel.unpack with
  | zero s => simp [fraction?, eq_comm]
  | finite s m e hm => grind [fraction?]
  | infinity s => simp [fraction?]
  | notANumber => simp [fraction?]

theorem representable_of_value {x : Float} {a : ℚ} (h : value? x = some a) : Representable a := by
  rcases value?_eq_some_iff.1 h with ⟨-, rfl⟩ | ⟨s, m, e, hm, hx, rfl⟩
  · exact representable_zero
  · have hcanonical := canonical_of_unpack hx
    refine ⟨s.apply m, e, ?_, hcanonical.least_le, rfl⟩
    have := hcanonical.mantissa_lt
    cases s <;> simp only [Sign.apply, abs_neg, Nat.abs_cast] <;> omega

theorem isFinite_of_value {x : Float} {a : ℚ} (h : value? x = some a) : x.isFinite = true := by
  show x.toModel.unpack.isFinite = true
  rcases value?_eq_some_iff.1 h with ⟨⟨s, hx⟩, -⟩ | ⟨s, m, e, hm, hx, -⟩ <;> rw [hx] <;> rfl

theorem exists_value_of_isFinite {x : Float} (h : x.isFinite = true) : ∃ a, value? x = some a := by
  change x.toModel.unpack.isFinite = true at h
  rw [value?]
  cases hx : x.toModel.unpack with
  | zero s => exact ⟨_, rfl⟩
  | finite s m e hm => exact ⟨_, rfl⟩
  | infinity s => rw [hx] at h; cases h
  | notANumber => rw [hx] at h; cases h

theorem isNaN_of_value {x : Float} {a : ℚ} (h : value? x = some a) : x.isNaN = false := by
  show x.toModel.unpack.isNaN = false
  rcases value?_eq_some_iff.1 h with ⟨⟨s, hx⟩, -⟩ | ⟨s, m, e, hm, hx, -⟩ <;> rw [hx] <;> rfl

theorem value?_neg {x : Float} {a : ℚ} (h : value? x = some a) : value? (-x) = some (-a) := by
  show fraction? (Float.Model.pack x.toModel.unpack.neg).unpack = _
  rcases value?_eq_some_iff.1 h with ⟨⟨s, hx⟩, rfl⟩ | ⟨s, m, e, hm, hx, rfl⟩
  · rw [hx, UnpackedFloat.neg, unpack_pack_zero, neg_zero]
    rfl
  · rw [hx, UnpackedFloat.neg, unpack_pack_canonical (canonical_of_unpack hx), fraction?,
      apply_neg, Int.cast_neg, neg_mul]

theorem value?_abs {x : Float} {a : ℚ} (h : value? x = some a) : value? x.abs = some |a| := by
  show fraction? (Float.Model.pack x.toModel.unpack.abs).unpack = _
  rcases value?_eq_some_iff.1 h with ⟨⟨s, hx⟩, rfl⟩ | ⟨s, m, e, hm, hx, rfl⟩
  · rw [hx, UnpackedFloat.abs, unpack_pack_zero, abs_zero]
    rfl
  · rw [hx, UnpackedFloat.abs, unpack_pack_canonical (canonical_of_unpack hx), fraction?, abs_mul,
      abs_of_pos (two_zpow_pos e), apply_cast s, abs_mul, abs_apply_one, one_mul, Nat.abs_cast]
    rfl

theorem fraction?_lifted {n : ℕ} (hpos : 0 < n) (hn : n < 2 ^ 53) :
    fraction? (carried (n * 2 ^ lift n) (-lift n)) = some (n : ℚ) := by
  have hlow := lifted hpos hn
  rw [carried_of_lt (by omega) hlow.2, fraction?]
  show some (((n * 2 ^ lift n : ℕ) : ℤ) * 2 ^ (-(lift n : ℤ)) : ℚ) = _
  rw [zpow_neg, zpow_natCast, Int.cast_natCast, Nat.cast_mul, Nat.cast_pow, Nat.cast_ofNat,
    mul_inv_cancel_right₀ (by positivity)]

theorem value?_ofNat {n : ℕ} (hn : n < 2 ^ 53) : value? (Float.ofNat n) = some (n : ℚ) := by
  rcases Nat.eq_zero_or_pos n with rfl | hpos
  · rfl
  · rw [value?, unpack_ofNat hpos hn, fraction?_lifted hpos hn]

theorem value?_zero : value? 0.0 = some 0 := rfl

theorem value?_one : value? 1.0 = some 1 := by
  have hbits : (1.0 : Float).toModel.unpack = .finite .positive (2 ^ 52) (-52) (by decide) := by
    rfl
  rw [value?, hbits, fraction?]
  norm_num [Sign.apply]

/-! ### Comparisons -/

theorem lt_of_exponent_lt {m m' : ℕ} {e e' : ℤ} (h : Canonical m e) (h' : Canonical m' e')
    (he : e < e') : (m : ℚ) * 2 ^ e < m' * 2 ^ e' := by
  have hm : (m : ℚ) < 2 ^ 53 := by exact_mod_cast h.mantissa_lt
  have hm' : (2 : ℚ) ^ 52 ≤ m' := by
    have := h'.bits.resolve_left (by have := h.least_le; omega)
    exact_mod_cast this
  calc (m : ℚ) * 2 ^ e < 2 ^ 53 * 2 ^ e := mul_lt_mul_of_pos_right hm (two_zpow_pos e)
    _ = 2 ^ 52 * 2 ^ (1 + e) := by
        rw [two_zpow_split rfl]
        norm_num
        ring
    _ ≤ 2 ^ 52 * 2 ^ e' := by
        have := two_zpow_le (show 1 + e ≤ e' by omega)
        gcongr
    _ ≤ m' * 2 ^ e' := mul_le_mul_of_nonneg_right hm' (two_zpow_pos e').le

theorem compare_sizes {m m' : ℕ} {e e' : ℤ} (h : Canonical m e) (h' : Canonical m' e') :
    (compare e e').then (compare m m') = compare ((m : ℚ) * 2 ^ e) (m' * 2 ^ e') := by
  rcases lt_trichotomy e e' with he | rfl | he
  · rw [compare_lt_iff_lt.2 he, compare_lt_iff_lt.2 (lt_of_exponent_lt h h' he)]
    rfl
  · rw [compare_eq_iff_eq.2 rfl, Ordering.eq_then]
    have hpos := two_zpow_pos e
    rcases lt_trichotomy m m' with hm | rfl | hm
    · have hm' : (m : ℚ) < m' := by exact_mod_cast hm
      rw [compare_lt_iff_lt.2 hm, compare_lt_iff_lt.2 (mul_lt_mul_of_pos_right hm' hpos)]
    · rw [compare_eq_iff_eq.2 rfl, compare_eq_iff_eq.2 rfl]
    · have hm' : (m' : ℚ) < m := by exact_mod_cast hm
      rw [compare_gt_iff_gt.2 hm, compare_gt_iff_gt.2 (mul_lt_mul_of_pos_right hm' hpos)]
  · rw [compare_gt_iff_gt.2 he, compare_gt_iff_gt.2 (lt_of_exponent_lt h' h he)]
    rfl

theorem swap_compare (a b : ℚ) : (compare a b).swap = compare (-a) (-b) := by
  rcases lt_trichotomy a b with h | rfl | h
  · rw [compare_lt_iff_lt.2 h, compare_gt_iff_gt.2 (neg_lt_neg h)]
    rfl
  · rw [compare_eq_iff_eq.2 rfl, compare_eq_iff_eq.2 rfl]
    rfl
  · rw [compare_gt_iff_gt.2 h, compare_lt_iff_lt.2 (neg_lt_neg h)]
    rfl

/-- **Numbers compare as their values do.** -/
theorem compare_of_value {x y : Float} {a b : ℚ} (ha : value? x = some a)
    (hb : value? y = some b) :
    x.toModel.unpack.compare y.toModel.unpack = some (compare a b) := by
  have hpos : ∀ {m : ℕ} {e : ℤ}, 0 < m → 0 < (m : ℚ) * 2 ^ e := fun hm =>
    mul_pos (by exact_mod_cast hm) (two_zpow_pos _)
  rcases value?_eq_some_iff.1 ha with ⟨⟨s, hx⟩, rfl⟩ | ⟨s, m, e, hm, hx, rfl⟩ <;>
    rcases value?_eq_some_iff.1 hb with ⟨⟨s', hy⟩, rfl⟩ | ⟨s', m', e', hm', hy, rfl⟩ <;>
    rw [hx, hy]
  · rw [compare_eq_iff_eq.2 rfl]
    rfl
  · have := hpos (e := e') hm'
    cases s' <;> simp only [UnpackedFloat.compare, Sign.apply, Option.some.injEq]
    case positive => exact (compare_lt_iff_lt.2 (by simpa using this)).symm
    case negative => exact (compare_gt_iff_gt.2 (by simpa using this)).symm
  · have := hpos (e := e) hm
    cases s <;> simp only [UnpackedFloat.compare, Sign.apply, Option.some.injEq]
    case positive => exact (compare_gt_iff_gt.2 (by simpa using this)).symm
    case negative => exact (compare_lt_iff_lt.2 (by simpa using this)).symm
  · have hsizes := compare_sizes (canonical_of_unpack hx) (canonical_of_unpack hy)
    have := hpos (e := e) hm
    have := hpos (e := e') hm'
    cases s <;> cases s' <;>
      simp only [UnpackedFloat.compare, Sign.apply, Option.some.injEq, Int.cast_neg,
        Int.cast_natCast, neg_mul]
    case positive.positive => exact hsizes
    case positive.negative => exact (compare_gt_iff_gt.2 (by linarith)).symm
    case negative.positive => exact (compare_lt_iff_lt.2 (by linarith)).symm
    case negative.negative => rw [hsizes, swap_compare]

section Compare

variable {x y : Float} {a b : ℚ} (hx : value? x = some a) (hy : value? y = some b)
include hx hy

theorem lt_iff_of_value : x < y ↔ a < b := by
  calc x < y ↔ x.toModel.unpack.lt y.toModel.unpack = true := decide_eq_true_iff
    _ ↔ a < b := by
        rw [UnpackedFloat.lt, compare_of_value hx hy, beq_iff_eq, Option.some.injEq,
          compare_lt_iff_lt]

theorem le_iff_of_value : x ≤ y ↔ a ≤ b := by
  calc x ≤ y ↔ x.toModel.unpack.le y.toModel.unpack = true := decide_eq_true_iff
    _ ↔ a ≤ b := by
        rw [UnpackedFloat.le, compare_of_value hx hy]
        show (compare a b).isLE = true ↔ _
        rw [Ordering.isLE_iff_ne_gt, compare_gt_iff_gt.not, not_lt]

theorem beq_iff_of_value : (x == y) = true ↔ a = b := by
  show x.toModel.unpack.beq y.toModel.unpack = true ↔ _
  rw [UnpackedFloat.beq, compare_of_value hx hy, beq_iff_eq, Option.some.injEq,
    compare_eq_iff_eq]

end Compare

/-- Numbers that compare as equal are the same but for the sign of zero. -/
theorem eq_or_zero_of_beq {x y : Float} (h : (x == y) = true) :
    x = y ∨ value? x = some 0 ∧ value? y = some 0 := by
  obtain ⟨-, -, h | ⟨rfl, rfl⟩ | ⟨rfl, rfl⟩⟩ := Float.beq_iff_ne_nan_and_eq.1 h
  · exact .inl h
  · exact .inr ⟨rfl, rfl⟩
  · exact .inr ⟨rfl, rfl⟩

theorem exists_value_of_between {x lo hi : Float} {a b : ℚ} (hlo : value? lo = some a)
    (hhi : value? hi = some b) (hlt : lo < x) (hle : x ≤ hi) : ∃ v, value? x = some v := by
  refine exists_value_of_isFinite ?_
  show x.toModel.unpack.isFinite = true
  have hlt' : lo.toModel.unpack.lt x.toModel.unpack = true := decide_eq_true_iff.1 hlt
  have hle' : x.toModel.unpack.le hi.toModel.unpack = true := decide_eq_true_iff.1 hle
  cases hx : x.toModel.unpack with
  | zero s => rfl
  | finite s m e hm => rfl
  | notANumber =>
    rw [hx, UnpackedFloat.le, UnpackedFloat.compare] at hle'
    cases hle'
  | infinity s =>
    cases s with
    | positive =>
      rcases value?_eq_some_iff.1 hhi with ⟨⟨s, hhi⟩, -⟩ | ⟨s, m, e, hm, hhi, -⟩ <;>
        rw [hx, hhi] at hle' <;> cases hle'
    | negative =>
      rcases value?_eq_some_iff.1 hlo with ⟨⟨s, hlo⟩, -⟩ | ⟨s, m, e, hm, hlo, -⟩ <;>
        rw [hx, hlo] at hlt' <;> cases s <;> cases hlt'

end FactorPortfolio.Binary64
