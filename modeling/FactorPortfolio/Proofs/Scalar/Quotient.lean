import FactorPortfolio.Scalar.Binary64
import Mathlib

/-!
# Quotients of counts in binary64

A quotient of counts is rounded, and yet whether it is below 0.1 can be told from the counts:
`ofNat_div_lt_tenth_iff`.

The lemmas on the bits of packed floats stand in no module of Mathlib, but come with the whole.
-/

namespace FactorPortfolio.Binary64

open Float.Model Float.Model.UnpackedFloat

/-! ### The bits that decide how a fraction is rounded -/

/-- A fraction as its whole part, whether a half or more is left over, and whether what is left
over is anything but nothing or a half. -/
def extended (num den : Nat) : ExtendedMantissa :=
  ⟨num / den, decide (den ≤ 2 * (num % den)),
    decide (num % den ≠ 0 ∧ 2 * (num % den) ≠ den)⟩

theorem ofMantissaAndAccuracy_div {num den : Nat} (hden : 0 < den) :
    ExtendedMantissa.ofMantissaAndAccuracy (num / den) (accuracyOfFraction (num % den) den) =
      extended num den := by
  rw [accuracyOfFraction, extended]
  generalize num % den = r
  by_cases hr : r = 0
  · subst hr
    simp [ExtendedMantissa.ofMantissaAndAccuracy]
    omega
  · rw [if_neg hr]
    rcases Nat.lt_trichotomy (2 * r) den with h | h | h
    · rw [Nat.compare_eq_lt.2 h]
      simp [ExtendedMantissa.ofMantissaAndAccuracy]
      omega
    · rw [Nat.compare_eq_eq.2 h]
      simp [ExtendedMantissa.ofMantissaAndAccuracy]
      omega
    · rw [Nat.compare_eq_gt.2 h]
      simp [ExtendedMantissa.ofMantissaAndAccuracy]
      omega

theorem shiftRightOne_extended {num den : Nat} (hden : 0 < den) :
    (extended num den).shiftRightOne = extended num (2 * den) := by
  have hmod : num % (2 * den) = num % den + den * (num / den % 2) := by
    rw [Nat.mul_comm, Nat.mod_mul]
  have hlt := Nat.mod_lt num hden
  rw [ExtendedMantissa.shiftRightOne, extended, extended, hmod, Nat.div_div_eq_div_mul,
    Nat.mul_comm den 2]
  simp only [ExtendedMantissa.mk.injEq, true_and]
  generalize num % den = r at hlt
  rcases Nat.mod_two_eq_zero_or_one (num / den) with h | h <;> rw [h] <;> constructor <;>
    rw [Bool.eq_iff_iff] <;> simp <;> omega

theorem shiftRight_extended {num den : Nat} (hden : 0 < den) (k : Nat) :
    extended num den >>> k = extended num (2 ^ k * den) := by
  show k.repeat ExtendedMantissa.shiftRightOne (extended num den) = _
  induction k with
  | zero => rw [Nat.pow_zero, Nat.one_mul]; rfl
  | succ k ih =>
    rw [Nat.repeat, ih, shiftRightOne_extended (by positivity), Nat.pow_succ, ← Nat.mul_assoc,
      Nat.mul_comm 2]

/-- **The rounded whole number is within a half of the fraction.** -/
theorem roundedMantissa_extended (num : Nat) {den : Nat} (hden : 0 < den) :
    2 * num ≤ (2 * (extended num den).roundedMantissa + 1) * den ∧
      2 * (extended num den).roundedMantissa * den ≤ 2 * num + den := by
  have hsplit := Nat.div_add_mod num den
  have hlt := Nat.mod_lt num hden
  rw [ExtendedMantissa.roundedMantissa, extended]
  generalize num / den = q at hsplit
  generalize num % den = r at hsplit hlt
  subst hsplit
  have hmul : ∀ m, (2 * (q + m) + 1) * den = 2 * (den * q) + 2 * (den * m) + den := by
    intro m; ring
  have hmul' : ∀ m, 2 * (q + m) * den = 2 * (den * q) + 2 * (den * m) := by intro m; ring
  have hgoal : ∀ m, 2 * r ≤ 2 * (den * m) + den → 2 * (den * m) ≤ 2 * r + den →
      2 * (den * q + r) ≤ (2 * (q + m) + 1) * den ∧
        2 * (q + m) * den ≤ 2 * (den * q + r) + den := by
    intro m h h'
    rw [hmul, hmul']
    omega
  by_cases hhalf : den ≤ 2 * r <;> by_cases hrest : r ≠ 0 ∧ 2 * r ≠ den
  · rw [decide_eq_true hhalf, decide_eq_true hrest]
    exact hgoal 1 (by omega) (by omega)
  · rw [decide_eq_true hhalf, decide_eq_false hrest]
    have hr : 2 * r = den := by omega
    refine hgoal (q % 2) ?_ ?_ <;>
      rcases Nat.mod_two_eq_zero_or_one q with h | h <;> rw [h] <;> omega
  · rw [decide_eq_false hhalf, decide_eq_true hrest]
    exact hgoal 0 (by omega) (by omega)
  · rw [decide_eq_false hhalf, decide_eq_false hrest]
    exact hgoal 0 (by omega) (by omega)

/-! ### Rounding to 53 bits -/

theorem shiftToTargetExponent_eq {m k : Nat} {e : Int} {accuracy : Accuracy}
    (hm : m.log2 = 52 + k) (he : -1074 ≤ e + k) :
    shiftToTargetExponent Format.binary64 m e accuracy =
      (ExtendedMantissa.ofMantissaAndAccuracy m accuracy >>> k, e + k) := by
  have htarget : Format.binary64.targetExponent (totalExponent m e) - e = k := by
    simp [Format.targetExponent, totalExponent, Format.mantissaBits, Format.minExponent]
    omega
  simp [shiftToTargetExponent, shiftToExponent, htarget]

/-- A mantissa of up to `2 ^ 53` with its exponent as a number; `2 ^ 53` itself, a bit too long,
is carried over into the exponent. -/
def carried (M : Nat) (e : Int) : UnpackedFloat :=
  if h : 0 < M ∧ M < 2 ^ 53 then .finite .positive M e h.1
  else .finite .positive (2 ^ 52) (e + 1) (by decide)

theorem carried_of_lt {M : Nat} {e : Int} (hM : 0 < M) (h : M < 2 ^ 53) :
    carried M e = .finite .positive M e hM :=
  dif_pos ⟨hM, h⟩

theorem carried_two_pow (e : Int) :
    carried (2 ^ 53) e = .finite .positive (2 ^ 52) (e + 1) (by decide) :=
  dif_neg (by decide)

theorem shiftToTargetExponent_carried {M : Nat} {e : Int} (hlow : 2 ^ 52 ≤ M) (hhigh : M ≤ 2 ^ 53)
    (he : -1074 ≤ e) :
    (let shifted := shiftToTargetExponent Format.binary64 M e .exact
      if h : shifted.1.mantissa = 0 then .zero .positive
      else .finite .positive shifted.1.mantissa shifted.2 (Nat.pos_of_ne_zero h)) =
        carried M e := by
  rcases Nat.lt_or_eq_of_le hhigh with h | rfl
  · have hlog : M.log2 = 52 + 0 := (Nat.log2_eq_iff (by omega)).2 ⟨hlow, h⟩
    have hM : 0 < M := by omega
    rw [shiftToTargetExponent_eq hlog (by omega), carried_of_lt hM h]
    simp [ExtendedMantissa.ofMantissaAndAccuracy, HShiftRight.hShiftRight, Nat.repeat, hM.ne']
  · have hlog : (2 ^ 53).log2 = 52 + 1 := by decide +kernel
    rw [shiftToTargetExponent_eq hlog (by omega), carried_two_pow]
    simp [ExtendedMantissa.ofMantissaAndAccuracy, HShiftRight.hShiftRight, Nat.repeat,
      ExtendedMantissa.shiftRightOne]

/-- **Rounding a fraction that has more than 53 bits** gives a mantissa next to it. -/
theorem exists_roundWithAccuracy_eq {num den k : Nat} {e : Int} (hden : 0 < den)
    (hlog : (num / den).log2 = 52 + k) (he : -1074 ≤ e + k) :
    ∃ M, 2 ^ 52 ≤ M ∧ M ≤ 2 ^ 53 ∧
      2 * num ≤ (2 * M + 1) * (2 ^ k * den) ∧ 2 * M * (2 ^ k * den) ≤ 2 * num + 2 ^ k * den ∧
      roundWithAccuracy Format.binary64 .positive (num / den) e
        (accuracyOfFraction (num % den) den) = carried M (e + k) := by
  have hpos : 0 < 2 ^ k * den := by positivity
  obtain ⟨hnum, hnum'⟩ := roundedMantissa_extended num hpos
  generalize hM : (extended num (2 ^ k * den)).roundedMantissa = M at hnum hnum'
  have hne : num / den ≠ 0 := by
    intro h
    rw [h, Nat.log2_zero] at hlog
    omega
  obtain ⟨hfloor, hfloor'⟩ := (Nat.log2_eq_iff hne).1 hlog
  have hlow : 2 ^ 52 * (2 ^ k * den) ≤ num := by
    rw [← Nat.mul_assoc, ← Nat.pow_add]
    exact (Nat.le_div_iff_mul_le hden).1 hfloor
  have hhigh : num < 2 ^ 53 * (2 ^ k * den) := by
    rw [← Nat.mul_assoc, ← Nat.pow_add, show 53 + k = 52 + k + 1 by omega]
    exact (Nat.div_lt_iff_lt_mul hden).1 hfloor'
  have hM52 : 2 ^ 52 ≤ M := by
    by_contra h
    have := Nat.mul_le_mul_right (2 ^ k * den) (show 2 * M + 1 ≤ 2 ^ 53 - 1 by omega)
    omega
  have hM53 : M ≤ 2 ^ 53 := by
    by_contra h
    have := Nat.mul_le_mul_right (2 ^ k * den) (show 2 ^ 54 + 2 ≤ 2 * M by omega)
    omega
  refine ⟨M, hM52, hM53, hnum, hnum', ?_⟩
  rw [roundWithAccuracy, shiftToTargetExponent_eq hlog he, ofMantissaAndAccuracy_div hden,
    shiftRight_extended hden, ← shiftToTargetExponent_carried hM52 hM53 he]
  simp only [hM]

/-! ### Numbers in their bits -/

theorem unpack_pack_finite {s : Sign} {m : Nat} {e : Int} (hlow : 2 ^ 52 ≤ m) (hhigh : m < 2 ^ 53)
    (he : -1074 ≤ e) (he' : e ≤ 971) (hm : 0 < m) :
    (Float.Model.pack (.finite s m e hm)).unpack = .finite s m e hm := by
  have hlog : m.log2 + 1 = 53 := by
    rw [(Nat.log2_eq_iff hm.ne').2 ⟨hlow, hhigh⟩]
  obtain ⟨b, hb⟩ : ∃ b : Nat, (b : Int) = e + 1075 := ⟨(e + 1075).toNat, by omega⟩
  have hb' : (e + 1075).toNat = b := by omega
  have hexp : (BitVec.ofNat 11 b).toNat = b := by
    rw [BitVec.toNat_ofNat, Nat.mod_eq_of_lt (by omega)]
  have hones : BitVec.ofNat 11 b ≠ -1#11 := by
    intro h
    have := congrArg BitVec.toNat h
    rw [hexp] at this
    have : b = 2047 := this
    omega
  have hzero : BitVec.ofNat 11 b ≠ 0#11 := by
    intro h
    have := congrArg BitVec.toNat h
    rw [hexp] at this
    have : b = 0 := this
    omega
  have hmantissa : (1#1 ++ BitVec.ofNat 52 m).toNat = m := by
    rw [BitVec.toNat_append, ← Nat.shiftLeft_add_eq_or_of_lt (BitVec.isLt _), BitVec.toNat_ofNat]
    simp [Nat.shiftLeft_eq]
    omega
  have hpack : UnpackedFloat.pack Format.binary64 (.finite s m e hm) =
      packComponents Format.binary64 s (BitVec.ofNat 11 b) (BitVec.ofNat 52 m) := by
    rw [UnpackedFloat.pack, ← hb']
    change (if 2 ^ 11 ≤ (e + (1023 : Int) + (52 : Int)).toNat + 1 then _
      else if m.log2 + 1 = 53 then _ else _) = _
    rw [if_neg (by omega), if_pos hlog]
    congr 2
    change (e + (1023 : Int) + (52 : Int)).toNat = _
    omega
  change UnpackedFloat.unpack Format.binary64
    (UnpackedFloat.pack Format.binary64 (.finite s m e hm)) = _
  rw [hpack]
  simp only [UnpackedFloat.unpack, unpackMantissa_packComponents, unpackExponent_packComponents,
    unpackSign_packComponents, Sign.ofBitVec_toBitVec]
  rw [if_neg hones, if_neg hzero]
  simp only [hmantissa, hexp]
  rw [hb]
  congr 1
  change e + 1075 - ((1023 : Int) + (52 : Int)) = e
  omega

theorem unpack_pack_carried {M : Nat} {e : Int} (hlow : 2 ^ 52 ≤ M) (hhigh : M ≤ 2 ^ 53)
    (he : -1074 ≤ e) (he' : e ≤ 970) : (Float.Model.pack (carried M e)).unpack = carried M e := by
  rcases Nat.lt_or_eq_of_le hhigh with h | rfl
  · have hM : 0 < M := by omega
    rw [carried_of_lt hM h, unpack_pack_finite hlow h he (by omega)]
  · rw [carried_two_pow, unpack_pack_finite le_rfl (by decide) (by omega) (by omega)]

theorem roundWithAccuracy_exact {m : Nat} (hlow : 2 ^ 52 ≤ m) (hhigh : m < 2 ^ 53) (k : Nat)
    {e : Int} (he : -1074 ≤ e + k) :
    roundWithAccuracy Format.binary64 .positive (m * 2 ^ k) e .exact = carried m (e + k) := by
  have hlog : (m * 2 ^ k / 1).log2 = 52 + k := by
    rw [Nat.div_one, Nat.log2_eq_iff (by positivity), Nat.pow_add,
      show 52 + k + 1 = 53 + k by omega, Nat.pow_add]
    exact ⟨Nat.mul_le_mul_right _ hlow, Nat.mul_lt_mul_of_pos_right hhigh (by positivity)⟩
  obtain ⟨M, -, -, hM, hM', hround⟩ := exists_roundWithAccuracy_eq Nat.one_pos hlog he
  rw [Nat.mul_one, ← Nat.mul_assoc] at hM
  rw [Nat.mul_one, ← Nat.mul_assoc, ← Nat.succ_mul] at hM'
  have hle := Nat.le_of_mul_le_mul_right hM (by positivity)
  have hle' := Nat.le_of_mul_le_mul_right hM' (by positivity)
  obtain rfl : M = m := by omega
  rwa [Nat.div_one, Nat.mod_one] at hround

/-! ### Counts -/

/-- How far a count is shifted to have 53 bits. -/
def lift (n : Nat) : Nat := 52 - n.log2

theorem lifted {n : Nat} (hpos : 0 < n) (hn : n < 2 ^ 53) :
    2 ^ 52 ≤ n * 2 ^ lift n ∧ n * 2 ^ lift n < 2 ^ 53 := by
  obtain ⟨hlow, hhigh⟩ := (Nat.log2_eq_iff hpos.ne').1 rfl
  have hlog := (Nat.log2_lt hpos.ne').2 hn
  constructor
  · calc 2 ^ 52 = 2 ^ n.log2 * 2 ^ lift n := by rw [← Nat.pow_add, lift]; congr 1; omega
      _ ≤ n * 2 ^ lift n := Nat.mul_le_mul_right _ hlow
  · calc n * 2 ^ lift n < 2 ^ (n.log2 + 1) * 2 ^ lift n :=
          Nat.mul_lt_mul_of_pos_right hhigh (by positivity)
      _ = 2 ^ 53 := by rw [← Nat.pow_add, lift]; congr 1; omega

theorem unpack_ofUInt64 {n : Nat} (hpos : 0 < n) (hn : n < 2 ^ 53) :
    (Float.Model.ofUInt64 n.toUInt64).unpack = carried (n * 2 ^ lift n) (-lift n) := by
  obtain ⟨hlow, hhigh⟩ := lifted hpos hn
  have hlog := (Nat.log2_lt hpos.ne').2 hn
  have hlift : lift n ≤ 52 := Nat.sub_le ..
  have hround : UnpackedFloat.ofUInt64 Format.binary64 n.toUInt64 =
      carried (n * 2 ^ lift n) (-lift n) := by
    have htarget : Format.binary64.targetExponent (totalExponent n 0) = -lift n := by
      simp [Format.targetExponent, totalExponent, Format.mantissaBits, Format.minExponent, lift]
      omega
    have hcompare : compare (n : Int) 0 = .gt := by
      rw [compare_gt_iff_gt]
      omega
    have hexact := roundWithAccuracy_exact hlow hhigh 0 (e := -lift n) (by omega)
    simp only [Nat.pow_zero, Nat.mul_one] at hexact
    have hnat : n.toUInt64.toNat = n := by
      simp only [Nat.toUInt64, UInt64.toNat_ofNat']
      omega
    rw [UnpackedFloat.ofUInt64, hnat, UnpackedFloat.ofNat, UnpackedFloat.ofInt,
      UnpackedFloat.normalize, hcompare]
    simp only [UnpackedFloat.round, Int.toNat_natCast, htarget, decreaseExponent,
      Nat.shiftLeft_eq, Int.zero_sub]
    simpa using hexact
  rw [Float.Model.ofUInt64, hround, unpack_pack_carried hlow hhigh.le (by omega) (by omega)]

theorem unpack_ofNat {n : Nat} (hpos : 0 < n) (hn : n < 2 ^ 53) :
    (Float.ofNat n).toModel.unpack = carried (n * 2 ^ lift n) (-lift n) := by
  obtain ⟨hlow, hhigh⟩ := lifted hpos hn
  have hlift : lift n ≤ 52 := Nat.sub_le ..
  have hone : (Float.Model.ofBits 0x3FF0000000000000).unpack =
      .finite .positive (2 ^ 52) (-52) (by decide) := by
    rfl
  have hmul : UnpackedFloat.mul Format.binary64 (carried (n * 2 ^ lift n) (-lift n))
      (.finite .positive (2 ^ 52) (-52) (by decide)) = carried (n * 2 ^ lift n) (-lift n) := by
    have hexact := roundWithAccuracy_exact hlow hhigh 52 (e := -lift n - 52) (by omega)
    rw [carried_of_lt (by omega) hhigh] at hexact ⊢
    rw [UnpackedFloat.mul, show (-lift n + -52 : Int) = -lift n - 52 by omega]
    refine hexact.trans ?_
    congr 1
    omega
  have hofNat : (Float.ofNat n).toModel =
      .ofUInt64 n.toUInt64 * .ofBits 0x3FF0000000000000 := by
    rw [Float.ofNat]
    show (Float.ofScientific n false 0).toModel = _
    rw [Float.ofScientific, dif_pos ⟨hn, by omega⟩]
    rfl
  rw [hofNat]
  show (Float.Model.pack (UnpackedFloat.mul Format.binary64 _ _)).unpack = _
  rw [unpack_ofUInt64 hpos hn, hone, hmul,
    unpack_pack_carried hlow hhigh.le (by omega) (by omega)]

/-! ### Quotients of counts -/

theorem exists_log2_quotient {x y : Nat} (hx : 2 ^ 52 ≤ x) (hx' : x < 2 ^ 53) (hy : 2 ^ 52 ≤ y)
    (hy' : y < 2 ^ 53) : ∃ s ≤ 1, (x * 2 ^ 53 / y).log2 = 52 + s := by
  have hlow : 2 ^ 52 ≤ x * 2 ^ 53 / y := by
    rw [Nat.le_div_iff_mul_le (by omega)]
    omega
  have hhigh : x * 2 ^ 53 / y < 2 ^ 54 := by
    rw [Nat.div_lt_iff_lt_mul (by omega)]
    omega
  have hne : x * 2 ^ 53 / y ≠ 0 := by omega
  have hlog := (Nat.le_log2 hne).2 hlow
  have hlog' := (Nat.log2_lt hne).2 hhigh
  exact ⟨(x * 2 ^ 53 / y).log2 - 52, by omega, by omega⟩

theorem exists_unpack_div {k n : Nat} (hk : 0 < k) (hk' : k < 2 ^ 53) (hn : 0 < n)
    (hn' : n < 2 ^ 53) :
    ∃ M a c : Nat, 2 ^ 52 ≤ M ∧ M ≤ 2 ^ 53 ∧
      2 * (k * 2 ^ a * 2 ^ 53) ≤ (2 * M + 1) * (n * 2 ^ c) ∧
      2 * M * (n * 2 ^ c) ≤ 2 * (k * 2 ^ a * 2 ^ 53) + n * 2 ^ c ∧
      (Float.ofNat k / Float.ofNat n).toModel.unpack = carried M (c - a - 53) := by
  obtain ⟨hlow, hhigh⟩ := lifted hk hk'
  obtain ⟨hlow', hhigh'⟩ := lifted hn hn'
  have hlift : lift k ≤ 52 := Nat.sub_le ..
  have hlift' : lift n ≤ 52 := Nat.sub_le ..
  have hlog : (k * 2 ^ lift k).log2 = 52 := (Nat.log2_eq_iff (by omega)).2 ⟨hlow, hhigh⟩
  have hlog' : (n * 2 ^ lift n).log2 = 52 := (Nat.log2_eq_iff (by omega)).2 ⟨hlow', hhigh'⟩
  have htarget : Format.binary64.targetExponent
      (totalExponent (k * 2 ^ lift k) (-lift k) - totalExponent (n * 2 ^ lift n) (-lift n)) =
        lift n - lift k - 53 := by
    simp [Format.targetExponent, totalExponent, Format.mantissaBits, Format.minExponent, hlog,
      hlog']
    omega
  have hcore : divCore Format.binary64 (k * 2 ^ lift k) (-lift k) (n * 2 ^ lift n) (-lift n) =
      (k * 2 ^ lift k * 2 ^ 53 / (n * 2 ^ lift n), (lift n - lift k - 53 : Int),
        accuracyOfFraction (k * 2 ^ lift k * 2 ^ 53 % (n * 2 ^ lift n)) (n * 2 ^ lift n)) := by
    have hmin : min (-(lift k : Int) - -lift n) (lift n - lift k - 53) = lift n - lift k - 53 := by
      omega
    have hshift : (-(lift k : Int) - -lift n - (lift n - lift k - 53)).toNat = 53 := by omega
    simp only [divCore, htarget, hmin, hshift, Nat.shiftLeft_eq]
  obtain ⟨s, hs, hquot⟩ := exists_log2_quotient hlow hhigh hlow' hhigh'
  obtain ⟨M, hM, hM', h, h', hround⟩ := exists_roundWithAccuracy_eq (e := lift n - lift k - 53)
    (show 0 < n * 2 ^ lift n by omega) hquot (by omega)
  have hscale : 2 ^ s * (n * 2 ^ lift n) = n * 2 ^ (lift n + s) := by
    rw [Nat.pow_add]
    ring
  rw [hscale] at h h'
  refine ⟨M, lift k, lift n + s, hM, hM', h, h', ?_⟩
  show (Float.Model.pack (UnpackedFloat.div Format.binary64 _ _)).unpack = _
  rw [unpack_ofNat hk hk', unpack_ofNat hn hn', carried_of_lt (by omega) hhigh,
    carried_of_lt (by omega) hhigh', UnpackedFloat.div, hcore]
  have hexp : (lift n - lift k - 53 + s : Int) = (lift n + s : Nat) - lift k - 53 := by omega
  rw [hexp] at hround
  refine (congrArg (fun x => (Float.Model.pack x).unpack) hround).trans ?_
  exact unpack_pack_carried hM hM' (by omega) (by omega)

theorem lt_tenth_iff_of_rounded {k n a c M : Nat} (hk : 0 < k) (hn : 0 < n) (hn' : n < 2 ^ 53)
    (hlow : 2 ^ 52 ≤ M) (hhigh : M ≤ 2 ^ 53)
    (h : 2 * (k * 2 ^ a * 2 ^ 53) ≤ (2 * M + 1) * (n * 2 ^ c))
    (h' : 2 * M * (n * 2 ^ c) ≤ 2 * (k * 2 ^ a * 2 ^ 53) + n * 2 ^ c) :
    (c + 3 < a ∨ a = c + 3 ∧ M < 7205759403792794) ↔ 10 * k < n := by
  rcases Nat.lt_trichotomy a (c + 3) with ha | rfl | ha
  · obtain ⟨d, hd⟩ := Nat.exists_eq_add_of_le (show a ≤ c + 2 by omega)
    have hpow : n * 2 ^ c * 4 = n * 2 ^ d * 2 ^ a := by
      rw [Nat.mul_assoc, Nat.mul_assoc, ← Nat.pow_add, ← Nat.pow_add 2 c 2, hd, Nat.add_comm]
    have hquot : 2 * M * (n * 2 ^ d) ≤ k * 2 ^ 56 + n * 2 ^ d := by
      refine Nat.le_of_mul_le_mul_right (c := 2 ^ a) ?_ (by positivity)
      calc 2 * M * (n * 2 ^ d) * 2 ^ a = 2 * M * (n * 2 ^ c) * 4 := by
            rw [Nat.mul_assoc, ← hpow]
            ring
        _ ≤ (2 * (k * 2 ^ a * 2 ^ 53) + n * 2 ^ c) * 4 := Nat.mul_le_mul_right _ h'
        _ = (k * 2 ^ 56 + n * 2 ^ d) * 2 ^ a := by
            rw [Nat.add_mul, hpow]
            ring
    have hn : n ≤ n * 2 ^ d := Nat.le_mul_of_pos_right _ (by positivity)
    have hM := Nat.mul_le_mul_right (n * 2 ^ d) (show 2 ^ 53 ≤ 2 * M by omega)
    omega
  · have hquot : k * 2 ^ 57 ≤ (2 * M + 1) * n := by
      refine Nat.le_of_mul_le_mul_right (c := 2 ^ c) ?_ (by positivity)
      calc k * 2 ^ 57 * 2 ^ c = 2 * (k * 2 ^ (c + 3) * 2 ^ 53) := by ring
        _ ≤ (2 * M + 1) * (n * 2 ^ c) := h
        _ = (2 * M + 1) * n * 2 ^ c := by ring
    have hquot' : 2 * M * n ≤ k * 2 ^ 57 + n := by
      refine Nat.le_of_mul_le_mul_right (c := 2 ^ c) ?_ (by positivity)
      calc 2 * M * n * 2 ^ c = 2 * M * (n * 2 ^ c) := by ring
        _ ≤ 2 * (k * 2 ^ (c + 3) * 2 ^ 53) + n * 2 ^ c := h'
        _ = (k * 2 ^ 57 + n) * 2 ^ c := by ring
    rcases Nat.lt_or_ge M 7205759403792794 with hM | hM
    · have := Nat.mul_le_mul_right n (show 2 * M + 1 ≤ 14411518807585587 by omega)
      omega
    · have := Nat.mul_le_mul_right n (show 14411518807585588 ≤ 2 * M by omega)
      omega
  · obtain ⟨d, rfl⟩ := Nat.exists_eq_add_of_le (show c + 4 ≤ a by omega)
    have hquot : k * 2 ^ d * 2 ^ 58 ≤ (2 * M + 1) * n := by
      refine Nat.le_of_mul_le_mul_right (c := 2 ^ c) ?_ (by positivity)
      calc k * 2 ^ d * 2 ^ 58 * 2 ^ c = 2 * (k * 2 ^ (c + 4 + d) * 2 ^ 53) := by ring
        _ ≤ (2 * M + 1) * (n * 2 ^ c) := h
        _ = (2 * M + 1) * n * 2 ^ c := by ring
    have hk' : k ≤ k * 2 ^ d := Nat.le_mul_of_pos_right _ (by positivity)
    have hM := Nat.mul_le_mul_right n (show 2 * M + 1 ≤ 2 ^ 54 + 1 by omega)
    omega

theorem lt_tenth_carried {M : Nat} {e : Int} (hlow : 2 ^ 52 ≤ M) (hhigh : M ≤ 2 ^ 53) :
    (carried M e).lt (.finite .positive 7205759403792794 (-56) (by decide)) = true ↔
      e < -56 ∨ e = -56 ∧ M < 7205759403792794 := by
  have hlt : ∀ m e' (hm : 0 < m), UnpackedFloat.lt (.finite .positive m e' hm)
      (.finite .positive 7205759403792794 (-56) (by decide)) = true ↔
        e' < -56 ∨ e' = -56 ∧ m < 7205759403792794 := by
    intro m e' hm
    simp [UnpackedFloat.lt, UnpackedFloat.compare, Ordering.then_eq_lt,
      compare_lt_iff_lt]
  rcases Nat.lt_or_eq_of_le hhigh with h | rfl
  · rw [carried_of_lt (by omega) h, hlt]
  · rw [carried_two_pow, hlt]
    omega

/-- **A quotient of counts is below 0.1 exactly when ten times the one is below the other**,
however the quotient is rounded. -/
theorem ofNat_div_lt_tenth_iff {k n : Nat} (hk : 0 < k) (hk' : k < 2 ^ 53) (hn : 0 < n)
    (hn' : n < 2 ^ 53) : Float.ofNat k / Float.ofNat n < 0.1 ↔ 10 * k < n := by
  obtain ⟨M, a, c, hlow, hhigh, h, h', hunpack⟩ := exists_unpack_div hk hk' hn hn'
  have htenth : (0.1 : Float).toModel.unpack =
      .finite .positive 7205759403792794 (-56) (by decide) := by
    rfl
  have hlt := lt_tenth_carried (e := c - a - 53) hlow hhigh
  rw [← hunpack, ← htenth] at hlt
  calc Float.ofNat k / Float.ofNat n < 0.1
      ↔ (Float.ofNat k / Float.ofNat n).toModel.unpack.lt (0.1 : Float).toModel.unpack = true :=
        decide_eq_true_iff
    _ ↔ (c - a - 53 : Int) < -56 ∨ (c - a - 53 : Int) = -56 ∧ M < 7205759403792794 := hlt
    _ ↔ c + 3 < a ∨ a = c + 3 ∧ M < 7205759403792794 := by omega
    _ ↔ 10 * k < n := lt_tenth_iff_of_rounded hk hn hn' hlow hhigh h h'

end FactorPortfolio.Binary64
