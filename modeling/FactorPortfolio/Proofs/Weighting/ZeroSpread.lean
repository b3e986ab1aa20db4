import FactorPortfolio.Proofs.Scalar.Deviation
import FactorPortfolio.Proofs.Weighting.SumToOne

/-!
# Weights of equal scores in binary64

Scores that are all equal are meant to share the portfolio in equal parts. They do if nothing is
left of a score when the rounded mean of all of them is taken off; else every symbol is tilted the
same way, the weights sum to less or more than 1, and there is no portfolio
(`weights_of_equal_scores`). Whole scores are on the safe side, a tenth is not
(`threeOf_tenth_not_equal`).

Weights that are all the same can only be wrong in their sum, and that depends on how far their
exact sum is from 1: `fault?_eq_none_of_near` and `fault?_eq_badSum_of_far`. With an intensity of a
thousandth a tilt already moves every part further than that allows (`exists_value_part`).
-/

namespace FactorPortfolio.Weighting

open Binary64

/-! ### Weights of one value -/

theorem exists_value_sumTolerance : ∃ t, value? (sumTolerance : Float) = some t ∧
    2 ^ (-14 : ℤ) < t ∧ t < 2 ^ (-13 : ℤ) := by
  have hbits : (sumTolerance : Float).toModel.unpack =
      .finite .positive 7378697629483821 (-66) (by decide) := by
    rfl
  rw [value?, hbits, fraction?]
  refine ⟨_, rfl, ?_⟩
  norm_num [Float.Model.UnpackedFloat.Sign.apply]

theorem weightFault?_eq_none {symbol : Symbol} {w : Float} {ω : ℚ} (h : value? w = some ω)
    (hpos : 0 ≤ ω) : weightFault? symbol w = none := by
  have hfinite : Scalar.isFinite w = true := isFinite_of_value h
  have hlt : ¬w < (0.0 : Float) := (lt_iff_of_value h value?_zero).not.2 hpos.not_gt
  rw [weightFault?, hfinite]
  exact if_neg hlt

section OneValue

variable {weights : Table Symbol Float} {ω : ℚ} (h : ∀ w ∈ weights.values, value? w = some ω)
  (hpos : 0 ≤ ω)
include h hpos

theorem fault?_of_one_value : fault? weights =
    if (sumTolerance : Float) < (Scalar.sum weights.values - 1.0).abs then
      some (.badSum (Scalar.sum weights.values))
    else none := by
  have hnone : weights.entries.findSome? (fun e => weightFault? e.1 e.2) = none := by
    rw [List.findSome?_eq_none_iff]
    exact fun e he => weightFault?_eq_none (h e.2 (List.mem_map_of_mem he)) hpos
  rw [fault?, hnone]
  rfl

variable (hlength : weights.values.length ≤ 2 ^ 38) (hω : ω ≤ 2 ^ (64 : ℤ))
include hlength hω

/-- The check compares a rounded distance of the sum from 1 with the tolerance. -/
theorem exists_distance_of_one_value : ∃ s r t : ℚ,
    |s - weights.values.length * ω| ≤ 2 ^ (-15 : ℤ) * (weights.values.length * ω) ∧
      Nearest (s - 1) r ∧ 2 ^ (-14 : ℤ) < t ∧ t < 2 ^ (-13 : ℤ) ∧
        ((sumTolerance : Float) < (Scalar.sum weights.values - 1.0).abs ↔ t < |r|) := by
  obtain ⟨s, hs, hsum⟩ := exists_value_sum_near h hlength (by rwa [abs_of_nonneg hpos])
  rw [abs_of_nonneg hpos] at hsum
  obtain ⟨t, ht, htlow, hthigh⟩ := exists_value_sumTolerance
  have hmoderate : |s - 1| ≤ 2 ^ (128 : ℤ) := by
    have hn : (weights.values.length : ℚ) ≤ 2 ^ 38 := by exact_mod_cast hlength
    have htotal := mul_le_mul hn hω hpos (by norm_num)
    norm_num at htotal hsum ⊢
    rw [abs_le] at hsum ⊢
    constructor <;> linarith
  obtain ⟨r, hr, hnearest⟩ := rounds_sub hs value?_one (lt_of_le_moderate hmoderate)
  exact ⟨s, r, t, hsum, hnearest, htlow, hthigh, lt_iff_of_value ht (value?_abs hr)⟩

theorem fault?_eq_none_of_near (hnear : |weights.values.length * ω - 1| ≤ 2 ^ (-16 : ℤ)) :
    fault? weights = none := by
  obtain ⟨s, r, t, hsum, hnearest, htlow, -, hiff⟩ :=
    exists_distance_of_one_value h hpos hlength hω
  have hclose : |s - 1| ≤ 2 ^ (-14 : ℤ) := by
    norm_num at hsum hnear ⊢
    rw [abs_le] at hsum hnear ⊢
    constructor <;> linarith
  have hr := hnearest.abs_le_of_le (representable_two_zpow (by decide)) hclose
  rw [fault?_of_one_value h hpos, if_neg (hiff.not.2 (hr.trans htlow.le).not_gt)]

theorem fault?_eq_badSum_of_far (hfar : 2 ^ (-12 : ℤ) ≤ |weights.values.length * ω - 1|) :
    fault? weights = some (.badSum (Scalar.sum weights.values)) := by
  obtain ⟨s, r, t, hsum, hnearest, -, hthigh, hiff⟩ :=
    exists_distance_of_one_value h hpos hlength hω
  have hapart : 2 ^ (-13 : ℤ) ≤ |s - 1| := by
    norm_num at hsum hfar ⊢
    rw [abs_le] at hsum
    rw [le_abs] at hfar ⊢
    rcases hfar with hfar | hfar
    · exact .inl (by linarith)
    · exact .inr (by linarith)
  have hr := hnearest.le_abs_of_le (representable_two_zpow (by decide)) hapart
  rw [fault?_of_one_value h hpos, if_pos (hiff.2 (hthigh.trans_le hr))]

end OneValue

theorem values_ofList_const {ν : Type} {selected : List (Symbol × ν)}
    (hkeys : (selected.map Prod.fst).Nodup) (w : ν) :
    (Table.ofList (selected.map fun e => (e.1, w))).values =
      List.replicate selected.length w := by
  rw [← List.perm_replicate, ← List.map_const']
  have hperm := Table.entries_ofList_perm (l := selected.map fun e => (e.1, w))
    (by rwa [List.map_map])
  refine (hperm.map Prod.snd).trans ?_
  rw [List.map_map]
  rfl

/-! ### Equal parts -/

theorem exists_value_share {n : ℕ} (hn : 3 ≤ n) (hn' : n ≤ 2 ^ 38) :
    ∃ b, value? (1.0 / Float.ofNat n) = some b ∧ |n * b - 1| ≤ 2 ^ (-53 : ℤ) ∧ 0 < b ∧
      b ≤ 3 / 8 := by
  have hpos : (3 : ℚ) ≤ n := by exact_mod_cast hn
  have hle : (n : ℚ) ≤ 2 ^ 38 := by exact_mod_cast hn'
  have hlow : (2 : ℚ) ^ (-38 : ℤ) ≤ 1 / n := by
    rw [le_div_iff₀ (by linarith)]
    norm_num
    linarith
  have hhigh : (1 : ℚ) / n ≤ 3 / 8 := by
    rw [div_le_iff₀ (by linarith)]
    linarith
  have habs : |(1 : ℚ) / n| = 1 / n := abs_of_nonneg (by positivity)
  have hmoderate : |(1 : ℚ) / n| ≤ 2 ^ (128 : ℤ) := by
    rw [habs]
    norm_num
    norm_num at hhigh
    linarith
  obtain ⟨b, hb, hnearest⟩ := rounds_div value?_one (value?_ofNat (n := n) (by omega))
    (by linarith) (lt_of_le_moderate hmoderate)
  refine ⟨b, hb, ?_, ?_, ?_⟩
  · have hnormal : 2 ^ (-1022 : ℤ) ≤ |(1 : ℚ) / n| := by
      rw [habs]
      exact (two_zpow_le (by decide)).trans hlow
    have herror := hnearest.error_of_le hnormal
    rw [habs] at herror
    have hscale := mul_le_mul_of_nonneg_left herror (show (0 : ℚ) ≤ n by linarith)
    have hsplit : (n : ℚ) * b - 1 = n * (b - 1 / n) := by
      rw [mul_sub, mul_one_div_cancel (by linarith)]
    have hone : (n : ℚ) * (2 ^ (-53 : ℤ) * (1 / n)) = 2 ^ (-53 : ℤ) := by
      rw [mul_left_comm, mul_one_div_cancel (by linarith), mul_one]
    rwa [hsplit, abs_mul, Nat.abs_cast, ← hone]
  · exact (two_zpow_pos _).trans_le (hnearest.ge (representable_two_zpow (by decide)) hlow)
  · refine hnearest.le ⟨3, -3, by decide, by decide, ?_⟩ hhigh
    norm_num

/-- **Equal parts pass the check of their sum.** -/
theorem fault?_equalParts {selected : List (Symbol × Float)} {n : ℕ}
    (hkeys : (selected.map Prod.fst).Nodup) (hlength : selected.length = n) (hn : 3 ≤ n)
    (hn' : n ≤ 2 ^ 38) :
    fault? (Table.ofList (selected.map fun e => (e.1, 1.0 / Float.ofNat n))) = none := by
  obtain ⟨b, hb, hsum, hpos, hle⟩ := exists_value_share hn hn'
  have hvalues := values_ofList_const hkeys (1.0 / Float.ofNat n)
  have hone : ∀ w ∈ (Table.ofList (selected.map fun e => (e.1, 1.0 / Float.ofNat n))).values,
      value? w = some b := by
    intro w hw
    rw [hvalues] at hw
    rw [List.eq_of_mem_replicate hw, hb]
  have hcount : (Table.ofList (selected.map fun e =>
      (e.1, 1.0 / Float.ofNat n))).values.length = n := by
    rw [hvalues, List.length_replicate, hlength]
  refine fault?_eq_none_of_near hone hpos.le (hcount.trans_le hn') ?_ ?_
  · norm_num
    linarith
  · rw [hcount]
    exact hsum.trans (two_zpow_le (by decide))

/-! ### What a tilt of equal scores does -/

theorem exists_value_room {x y : Float} {p q : ℚ} (hx : value? x = some p)
    (hy : value? y = some q) (hq : 1 / 4 ≤ q) (hq' : q ≤ 4) (hp : 2 ^ (-40 : ℤ) ≤ p)
    (hp' : p ≤ 1) :
    ∃ t, value? (x / y) = some t ∧ 2 ^ (-50 : ℤ) ≤ t ∧ 999 / 1000 * p ≤ t * q := by
  have hq0 : 0 < q := by linarith
  have hquot : 2 ^ (-42 : ℤ) ≤ p / q := by
    rw [le_div_iff₀ hq0]
    norm_num at hp ⊢
    linarith
  have hmoderate : |p / q| ≤ 2 ^ (128 : ℤ) := by
    rw [abs_of_pos ((two_zpow_pos _).trans_le hquot), div_le_iff₀ hq0]
    norm_num
    linarith
  obtain ⟨t, ht, hnearest⟩ := rounds_div hx hy hq0.ne' (lt_of_le_moderate hmoderate)
  have hge := hnearest.ge_of_le ((two_zpow_le (by decide)).trans hquot)
  refine ⟨t, ht, ?_, ?_⟩
  · norm_num at hquot hge ⊢
    linarith
  · have := mul_le_mul_of_nonneg_right hge hq0.le
    rwa [mul_assoc, div_mul_cancel₀ p hq0.ne'] at this

/-- The part of 1 that a tilt may add or take, as far as the z-score lets it. -/
theorem exists_value_headroom {base zScore : Float} {b z : ℚ} (hb : value? base = some b)
    (hz : value? zScore = some z) (hlow : 2 ^ (-40 : ℤ) ≤ b) (hhigh : b ≤ 3 / 8)
    (hsize : 1 / 4 ≤ |z|) (hsize' : |z| ≤ 4) :
    ∃ t, value? (headroom base zScore) = some t ∧ 2 ^ (-50 : ℤ) ≤ t ∧ 2 / 3 * b ≤ t * |z| ∧
      (0 < z → 1 / 4 ≤ t * |z|) := by
  have hb0 : 0 < b := (two_zpow_pos _).trans_le hlow
  rw [headroom]
  rcases le_or_gt z 0 with hneg | hpos
  · rw [abs_of_nonpos hneg] at hsize hsize' ⊢
    have hlt : ¬(0.0 : Float) < zScore := (lt_iff_of_value value?_zero hz).not.2 hneg.not_gt
    rw [if_neg hlt]
    obtain ⟨t, ht, htlow, htroom⟩ :=
      exists_value_room hb (value?_neg hz) hsize hsize' hlow (by linarith)
    exact ⟨t, ht, htlow, by linarith, fun h => absurd h hneg.not_gt⟩
  · rw [abs_of_pos hpos] at hsize hsize' ⊢
    have hlt : (0.0 : Float) < zScore := (lt_iff_of_value value?_zero hz).2 hpos
    have hrest : |1 - b| ≤ 2 ^ (128 : ℤ) := by
      rw [abs_of_nonneg (by linarith)]
      norm_num
      linarith
    obtain ⟨p, hp, hnearest⟩ := rounds_sub value?_one hb (lt_of_le_moderate hrest)
    have hp' : 1 / 2 ≤ p := by
      refine hnearest.ge ⟨1, -1, by decide, by decide, ?_⟩ (by linarith)
      norm_num
    have hp'' := hnearest.le representable_one (by linarith)
    rw [if_pos hlt]
    obtain ⟨t, ht, htlow, htroom⟩ :=
      exists_value_room hp hz hsize hsize' (by norm_num; linarith) hp''
    exact ⟨t, ht, htlow, by linarith, fun _ => by linarith⟩

theorem exists_value_damped {scale intensity : Float} {M i : ℚ} (hscale : value? scale = some M)
    (hi : value? intensity = some i) (hM : 2 ^ (-50 : ℤ) ≤ M) (hM' : M ≤ 1) (hlow : 1 / 1000 ≤ i)
    (hhigh : i ≤ 1) :
    ∃ s, value? (scale * intensity) = some s ∧ 2 ^ (-61 : ℤ) ≤ s ∧ s ≤ 1 ∧
      999 / 1000000 * M ≤ s := by
  have hM0 : 0 < M := (two_zpow_pos _).trans_le hM
  have hprod : M * i ≤ 1 := by
    have := mul_le_mul hM' hhigh (by linarith) zero_le_one
    linarith
  have hprod' : 1 / 1000 * M ≤ M * i := by
    have := mul_le_mul_of_nonneg_left hlow hM0.le
    linarith
  have hnormal : 2 ^ (-60 : ℤ) ≤ M * i := by
    norm_num at hM ⊢
    linarith
  have hpos : 0 < M * i := (two_zpow_pos _).trans_le hnormal
  obtain ⟨s, hs, hnearest⟩ := rounds_mul hscale hi (lt_of_le_moderate (by
    rw [abs_of_pos hpos]
    exact hprod.trans (by norm_num)))
  have hge := hnearest.ge_of_le ((two_zpow_le (by decide)).trans hnormal)
  refine ⟨s, hs, ?_, hnearest.le representable_one hprod, by linarith⟩
  norm_num at hnormal hge ⊢
  linarith

theorem exists_value_scaled {scale zScore : Float} {s z : ℚ} (hs : value? scale = some s)
    (hz : value? zScore = some z) (hlow : 2 ^ (-61 : ℤ) ≤ s) (hhigh : s ≤ 1)
    (hsize : 1 / 4 ≤ |z|) (hsize' : |z| ≤ 4) :
    ∃ τ, value? (scale * zScore) = some τ ∧ |τ| ≤ 4 ∧
      (z ≤ 0 → τ ≤ -(999 / 1000 * (s * |z|))) ∧ (0 < z → 999 / 1000 * (s * |z|) ≤ τ) := by
  have hpos : 0 < s := (two_zpow_pos _).trans_le hlow
  have habs : |s * z| = s * |z| := by rw [abs_mul, abs_of_pos hpos]
  have hprod : |s * z| ≤ 4 := by
    rw [habs]
    have := mul_le_mul hhigh hsize' (abs_nonneg z) zero_le_one
    linarith
  have hnormal : 2 ^ (-1022 : ℤ) ≤ |s * z| := by
    rw [habs]
    refine (two_zpow_le (by decide : (-1022 : ℤ) ≤ -63)).trans ?_
    have := mul_le_mul hlow hsize (by norm_num) hpos.le
    norm_num at this ⊢
    linarith
  obtain ⟨τ, hτ, hnearest⟩ := rounds_mul hs hz
    (lt_of_le_moderate (hprod.trans (by norm_num)))
  have hτ4 : |τ| ≤ 4 := by
    have := hnearest.abs_le_of_le (representable_natCast (n := 4) (by decide))
      (by exact_mod_cast hprod)
    exact_mod_cast this
  refine ⟨τ, hτ, hτ4, fun hneg => ?_, fun hz0 => ?_⟩
  · have hflip : |s * z| = -(s * z) := abs_of_nonpos (mul_nonpos_of_nonneg_of_nonpos hpos.le hneg)
    have hge := hnearest.neg.ge_of_le (hflip ▸ hnormal)
    rw [← hflip, habs] at hge
    linarith
  · have hflip : |s * z| = s * z := abs_of_nonneg (mul_nonneg hpos.le hz0.le)
    have hge := hnearest.ge_of_le (hflip ▸ hnormal)
    rwa [← hflip, habs] at hge

/-- **A tilt of equal scores moves all parts the same way**, down by some part or up by some
amount. -/
theorem exists_value_tilt {scale intensity zScore : Float} {t i z b : ℚ}
    (hscale : value? scale = some (min 1 t)) (hi : value? intensity = some i)
    (hz : value? zScore = some z) (hlow : 1 / 1000 ≤ i) (hhigh : i ≤ 1)
    (htlow : 2 ^ (-50 : ℤ) ≤ t) (hsize : 1 / 4 ≤ |z|) (hsize' : |z| ≤ 4)
    (hb : 0 < b) (hb' : b ≤ 3 / 8) (hroom : 2 / 3 * b ≤ t * |z|)
    (hroom' : 0 < z → 1 / 4 ≤ t * |z|) :
    ∃ τ, value? (scale * intensity * zScore) = some τ ∧ |τ| ≤ 4 ∧
      (τ ≤ -(65 / 100000) * b ∨ 24 / 100000 ≤ τ) := by
  obtain ⟨s, hs, hslow, hshigh, hsM⟩ := exists_value_damped hscale hi
    (le_min (by norm_num) htlow) (min_le_left 1 t) hlow hhigh
  obtain ⟨τ, hτ, hτ4, hdown, hup⟩ := exists_value_scaled hs hz hslow hshigh hsize hsize'
  refine ⟨τ, hτ, hτ4, ?_⟩
  have hmin : min 1 t * |z| = min |z| (t * |z|) := by
    rw [min_mul_of_nonneg _ _ (abs_nonneg z), one_mul]
  have hdamped := mul_le_mul_of_nonneg_right hsM (abs_nonneg z)
  rw [mul_assoc, hmin] at hdamped
  rcases le_or_gt z 0 with hneg | hpos
  · have hM : 2 / 3 * b ≤ min |z| (t * |z|) := le_min (by linarith) hroom
    have := hdown hneg
    exact .inl (by linarith)
  · have hM : 1 / 4 ≤ min |z| (t * |z|) := le_min hsize (hroom' hpos)
    have := hup hpos
    exact .inr (by linarith)

/-- **A tilted part is well off its share**, too small or too large. -/
theorem exists_value_part {base tilt : Float} {b τ : ℚ} {n : ℕ} (hn : 3 ≤ n)
    (hbase : value? base = some b) (htilt : value? tilt = some τ) (hb : 0 < b) (hb' : b ≤ 3 / 8)
    (hshare : |n * b - 1| ≤ 2 ^ (-53 : ℤ)) (hsize : |τ| ≤ 4)
    (hτ : τ ≤ -(65 / 100000) * b ∨ 24 / 100000 ≤ τ) :
    ∃ ω, value? (Scalar.max (base + tilt) 0.0) = some ω ∧ 0 ≤ ω ∧ ω ≤ 2 ^ (64 : ℤ) ∧
      2 ^ (-12 : ℤ) ≤ |n * ω - 1| := by
  have hn3 : (3 : ℚ) ≤ n := by exact_mod_cast hn
  have hsum : |b + τ| ≤ 5 := by
    rw [abs_le] at hsize ⊢
    constructor <;> linarith
  obtain ⟨y, hy, hnearest⟩ := rounds_add hbase htilt
    (lt_of_le_moderate (hsum.trans (by norm_num)))
  have herror := hnearest.error_add (representable_of_value hbase)
    (representable_of_value htilt)
  have hy8 : y ≤ 8 := by
    have := le_of_abs_le herror
    norm_num at this
    linarith [le_abs_self (b + τ)]
  refine ⟨max y 0, value?_max hy value?_zero, le_max_right y 0, ?_, ?_⟩
  · exact max_le (hy8.trans (by norm_num)) (two_zpow_pos _).le
  · rw [abs_le] at hshare herror
    norm_num at hshare
    rcases hτ with hτ | hτ
    · have hω : max y 0 ≤ (1 - 6 / 10000) * b := by
        refine max_le ?_ (by linarith)
        rcases le_total (b + τ) 0 with hneg | hpos
        · exact (hnearest.nonpos hneg).trans (by linarith)
        · rw [abs_of_nonneg hpos] at herror
          norm_num at herror
          linarith
      have hscale := mul_le_mul_of_nonneg_left hω (show (0 : ℚ) ≤ n by linarith)
      rw [abs_sub_comm]
      refine le_trans ?_ (le_abs_self _)
      norm_num
      linarith
    · have hω : b + 2 / 10000 ≤ max y 0 := by
        refine le_trans ?_ (le_max_left y 0)
        rw [abs_of_nonneg (by linarith)] at herror hsum
        norm_num at herror
        linarith
      have hscale := mul_le_mul_of_nonneg_left hω (show (0 : ℚ) ≤ n by linarith)
      refine le_trans ?_ (le_abs_self _)
      norm_num
      linarith

/-! ### All equal scores -/

section EqualScores

variable {selected : List (Symbol × Float)} {n : ℕ} {c intensity : Float} {a : ℚ}

/-- **Without a deviation the parts are equal**, and they pass. -/
theorem tiltedWeights_of_no_deviation (hlength : selected.length = n)
    (hnone : spread? (selected.map Prod.snd) = none) :
    tiltedWeights selected intensity =
      Table.ofList (selected.map fun e => (e.1, 1.0 / Float.ofNat n)) := by
  rw [spread?] at hnone
  rw [tiltedWeights, hnone, ← hlength]
  rfl

theorem scores_of_copies (hcopies : ∀ e ∈ selected, e.2 = c) (hlength : selected.length = n) :
    selected.map Prod.snd = List.replicate n c := by
  rw [List.eq_replicate_iff, List.length_map]
  refine ⟨hlength, fun x hx => ?_⟩
  obtain ⟨e, he, rfl⟩ := List.mem_map.1 hx
  exact hcopies e he

/-- **Where nothing is left of the squares, there is no deviation.** -/
theorem no_deviation (hlength : selected.length = n) (hn : 3 ≤ n) (hn' : n ≤ 2 ^ 38)
    (hequal : ∀ e ∈ selected, (e.2 == c) = true)
    (hzero : value? (offMean c n * offMean c n) = some 0) :
    spread? (selected.map Prod.snd) = none := by
  have hcount : (selected.map Prod.snd).length = n := by rw [List.length_map, hlength]
  refine spread?_eq_none (by omega) (by omega) fun x hx => ?_
  by_cases hc : value? c = some 0
  · -- Zeros of either sign have an exact mean.
    refine value?_sq_sub_mean_of_multiples (b := 0) (fun y hy => ?_) (by omega) (by norm_num)
      (fun m _ => by rw [mul_zero]; exact representable_zero) hx
    obtain ⟨e, he, rfl⟩ := List.mem_map.1 hy
    rcases eq_or_zero_of_beq (hequal e he) with heq | ⟨hvalue, -⟩
    · rw [heq, hc]
    · exact hvalue
  · have hcopies : ∀ e ∈ selected, e.2 = c := fun e he =>
      (eq_or_zero_of_beq (hequal e he)).resolve_right fun h => hc h.2
    rw [scores_of_copies hcopies hlength] at hx ⊢
    rwa [List.eq_of_mem_replicate hx]

theorem zScores_of_copies (hcopies : ∀ e ∈ selected, e.2 = c) (hlength : selected.length = n)
    (stdev : Float) :
    zScores selected stdev = selected.map fun e => (e.1, offMean c n / stdev) := by
  rw [zScores, scores_of_copies hcopies hlength]
  refine List.map_congr_left fun e he => ?_
  rw [hcopies e he]
  rfl

theorem value?_maxScale {base zScore : Float} {t z : ℚ} (hne : selected ≠ [])
    (hz : value? zScore = some z) (hz0 : z ≠ 0) (ht : value? (headroom base zScore) = some t) :
    value? (maxScale base (selected.map fun e => (e.1, zScore))) = some (min 1 t) := by
  have hnonzero : (zScore != 0.0) = true := by
    rw [bne, Bool.not_eq_true', ← Bool.not_eq_true]
    exact (beq_iff_of_value hz value?_zero).not.2 hz0
  rw [maxScale]
  refine value?_foldl_min value?_one (fun y hy => ?_) ?_
  · obtain ⟨e, he, rfl⟩ := List.mem_map.1 hy
    obtain ⟨e', -, rfl⟩ := List.mem_map.1 (List.mem_of_mem_filter he)
    exact ht
  · obtain ⟨e, he⟩ := List.exists_mem_of_ne_nil selected hne
    have hmem : (e.1, zScore) ∈
        (selected.map fun e => (e.1, zScore)).filter fun e => e.2 != 0.0 :=
      List.mem_filter.2 ⟨List.mem_map.2 ⟨e, he, rfl⟩, hnonzero⟩
    exact List.ne_nil_of_mem (List.mem_map_of_mem hmem)

/-- **Copies of a score off their rounded mean lose the day**: all of them are tilted the same
way. -/
theorem fault?_of_copies (hkeys : (selected.map Prod.fst).Nodup)
    (hcopies : ∀ e ∈ selected, e.2 = c) (hlength : selected.length = n) (hn : 3 ≤ n)
    (hn' : n ≤ 2 ^ 38) (hc : value? c = some a) (ha : |a| ≤ 2 ^ (20 : ℤ)) {w i : ℚ}
    (hw : value? (offMean c n * offMean c n) = some w) (hne : w ≠ 0)
    (hi : value? intensity = some i) (hlow : 1 / 1000 ≤ i) (hhigh : i ≤ 1) :
    ∃ sum, fault? (tiltedWeights selected intensity) = some (.badSum sum) := by
  have hselected : selected ≠ [] := by
    rintro rfl
    rw [List.length_nil] at hlength
    omega
  obtain ⟨stdev, z, hstdev, hz, hzlow, hzhigh⟩ := exists_zScore hn hn' hc ha hw hne
  obtain ⟨b, hb, hshare, hbpos, hble⟩ := exists_value_share hn hn'
  have hbase : value? (share selected) = some b := by
    rw [share, hlength]
    exact hb
  have hblow : 2 ^ (-40 : ℤ) ≤ b := by
    have hn38 : (n : ℚ) ≤ 2 ^ 38 := by exact_mod_cast hn'
    have hscale := mul_le_mul_of_nonneg_right hn38 hbpos.le
    have := (abs_le.1 hshare).1
    norm_num at this hscale ⊢
    linarith
  have hz0 : z ≠ 0 := by
    rintro rfl
    norm_num at hzlow
  obtain ⟨t, ht, htlow, hroom, hroom'⟩ :=
    exists_value_headroom hbase hz hblow hble hzlow hzhigh
  obtain ⟨τ, hτ, hτsize, hτfar⟩ := exists_value_tilt (value?_maxScale hselected hz hz0 ht) hi hz
    hlow hhigh htlow hzlow hzhigh hbpos hble hroom hroom'
  obtain ⟨ω, hω, hωpos, hωle, hωfar⟩ :=
    exists_value_part hn hbase hτ hbpos hble hshare hτsize hτfar
  have hweights : tiltedWeights selected intensity = Table.ofList (selected.map fun e =>
      (e.1, Scalar.max (share selected + maxScale (share selected)
        (selected.map fun e => (e.1, offMean c n / stdev)) * intensity * (offMean c n / stdev))
          0.0)) := by
    rw [spread?] at hstdev
    rw [tiltedWeights, scores_of_copies hcopies hlength, hstdev]
    show Table.ofList ((zScores selected stdev).map _) = _
    rw [zScores_of_copies hcopies hlength, List.map_map]
    rfl
  have hvalues := congrArg Table.values hweights
  rw [values_ofList_const hkeys, hlength] at hvalues
  have hcount : (tiltedWeights selected intensity).values.length = n := by
    rw [hvalues, List.length_replicate]
  refine ⟨_, fault?_eq_badSum_of_far (fun x hx => ?_) hωpos (hcount.trans_le hn') hωle ?_⟩
  · rw [hvalues] at hx
    rw [List.eq_of_mem_replicate hx]
    exact hω
  · rwa [hcount]

end EqualScores

/-! ### The weights of a selection -/

section Weights

variable {scores : Table Symbol Float} {n : ℕ} {c intensity : Float}

theorem weights_zScoreTilt (hn : 2 ≤ n) (hlength : (top scores n).length = n) :
    (WeightingPolicy.zScoreTilt intensity).weights scores n =
      match fault? (tiltedWeights (top scores n) intensity) with
      | some fault => .error (.invalidWeights fault)
      | none => .ok (tiltedWeights (top scores n) intensity) := by
  rw [WeightingPolicy.weights]
  simp only [hlength, if_true]
  rw [distribute_zScoreTilt (by omega)]
  cases fault? (tiltedWeights (top scores n) intensity) <;> rfl

theorem exists_value_intensity (hpos : 0.0 < intensity) (hle : intensity ≤ 1.0) :
    ∃ i, value? intensity = some i ∧ i ≤ 1 ∧ (0.001 ≤ intensity → 1 / 1000 ≤ i) := by
  obtain ⟨i, hi⟩ := exists_value_of_between value?_zero value?_one hpos hle
  have hbits : (0.001 : Float).toModel.unpack =
      .finite .positive 4611686018427388 (-62) (by decide) := by
    rfl
  have hvalue : value? 0.001 = some (4611686018427388 * 2 ^ (-62 : ℤ)) := by
    rw [value?, hbits, fraction?]
    rfl
  refine ⟨i, hi, (le_iff_of_value hi value?_one).1 hle, fun hlow => ?_⟩
  have := (le_iff_of_value hvalue hi).1 hlow
  norm_num at this
  linarith

theorem abs_value_le (hc : c.isFinite = true) (hsize : c.abs ≤ 1e6) :
    ∃ a, value? c = some a ∧ |a| ≤ 2 ^ (20 : ℤ) := by
  obtain ⟨a, ha⟩ := exists_value_of_isFinite hc
  have hbits : (1e6 : Float).toModel.unpack =
      .finite .positive 8589934592000000 (-33) (by decide) := by
    rfl
  have hvalue : value? 1e6 = some (8589934592000000 * 2 ^ (-33 : ℤ)) := by
    rw [value?, hbits, fraction?]
    rfl
  refine ⟨a, ha, ?_⟩
  have := (le_iff_of_value (value?_abs ha) hvalue).1 hsize
  norm_num at this ⊢
  linarith

/-- **Equal scores get equal weights exactly if nothing is left of them off their rounded mean**,
as soon as the tilt is no smaller than a thousandth. -/
theorem weights_of_equal_scores (hn : 3 ≤ n) (hn' : n ≤ 2 ^ 38)
    (hscores : n ≤ scores.entries.length) (hfinite : c.isFinite = true) (hsize : c.abs ≤ 1e6)
    (hequal : ∀ e ∈ top scores n, (e.2 == c) = true) (hpos : 0.0 < intensity)
    (hle : intensity ≤ 1.0) :
    ((offMean c n * offMean c n == 0.0) = true →
      (WeightingPolicy.zScoreTilt intensity).weights scores n =
        .ok (Table.ofList ((top scores n).map fun e => (e.1, 1.0 / Float.ofNat n)))) ∧
    ((offMean c n * offMean c n == 0.0) = false → 0.001 ≤ intensity →
      ∃ sum, (WeightingPolicy.zScoreTilt intensity).weights scores n =
        .error (.invalidWeights (.badSum sum))) ∧
    (∀ k : ℤ, value? c = some (k : ℚ) → |k| * n ≤ 2 ^ 53 →
      (offMean c n * offMean c n == 0.0) = true) := by
  obtain ⟨a, hc, ha⟩ := abs_value_le hfinite hsize
  obtain ⟨i, hi, hi1, hlow⟩ := exists_value_intensity hpos hle
  obtain ⟨d, w, -, hw, -, -⟩ := exists_value_sq_offMean hn hn' hc ha
  have hlength : (top scores n).length = n := by
    rw [length_top]
    omega
  have hzero : (offMean c n * offMean c n == 0.0) = true ↔ w = 0 :=
    beq_iff_of_value hw value?_zero
  refine ⟨fun h => ?_, fun h hthousandth => ?_, fun k hk hbits => ?_⟩
  · have hnone := no_deviation hlength hn hn' hequal (hzero.1 h ▸ hw)
    rw [weights_zScoreTilt (by omega) hlength, tiltedWeights_of_no_deviation hlength hnone,
      fault?_equalParts (nodup_top scores n) hlength hn hn']
  · have hne : w ≠ 0 := by
      rw [← Bool.not_eq_true] at h
      exact hzero.not.1 h
    have hcopies : ∀ e ∈ top scores n, e.2 = c := by
      refine fun e he => (eq_or_zero_of_beq (hequal e he)).resolve_right fun hboth => hne ?_
      have hnothing := value?_sq_offMean_of_multiples hn hn' hboth.2 (by norm_num)
        fun m _ => by rw [mul_zero]; exact representable_zero
      exact Option.some.inj (hw.symm.trans hnothing)
    obtain ⟨sum, hsum⟩ := fault?_of_copies (nodup_top scores n) hcopies hlength hn hn' hc ha hw
      hne hi (hlow hthousandth) hi1
    refine ⟨sum, ?_⟩
    rw [weights_zScoreTilt (by omega) hlength, hsum]
  · obtain rfl : a = k := Option.some.inj (hc.symm.trans hk)
    refine hzero.2 (Option.some.inj (hw.symm.trans
      (value?_sq_offMean_of_multiples hn hn' hc ha fun m hm => ?_)))
    have hmul : |(m : ℤ) * k| ≤ 2 ^ 53 := by
      rw [abs_mul, Nat.abs_cast, mul_comm]
      exact (mul_le_mul_of_nonneg_left (by exact_mod_cast hm) (abs_nonneg k)).trans hbits
    exact_mod_cast representable_intCast hmul

def threeOf (score : Float) : Table Symbol Float :=
  Table.ofList [("AAPL", score), ("GOOG", score), ("MSFT", score)]

/-- Scores of 2 share the portfolio; scores of a tenth, whose mean is rounded up, lose the day. -/
theorem weights_of_equal_scores_threeOf :
    3 ≤ 2 ^ 38 ∧ (0.0 : Float) < 0.001 ∧ (0.001 : Float) ≤ 1.0 ∧
    (3 ≤ (threeOf 2.0).entries.length ∧ (2.0 : Float).isFinite = true ∧ (2.0 : Float).abs ≤ 1e6 ∧
      ∀ e ∈ top (threeOf 2.0) 3, (e.2 == 2.0) = true) ∧
    (WeightingPolicy.zScoreTilt 0.001).weights (threeOf 2.0) 3 =
      .ok (Table.ofList ((top (threeOf 2.0) 3).map fun e => (e.1, 1.0 / Float.ofNat 3))) ∧
    (3 ≤ (threeOf 0.1).entries.length ∧ (0.1 : Float).isFinite = true ∧ (0.1 : Float).abs ≤ 1e6 ∧
      ∀ e ∈ top (threeOf 0.1) 3, (e.2 == 0.1) = true) ∧
    ∃ sum, (WeightingPolicy.zScoreTilt 0.001).weights (threeOf 0.1) 3 =
      .error (.invalidWeights (.badSum sum)) := by
  have htwo : 3 ≤ (threeOf 2.0).entries.length ∧ (2.0 : Float).isFinite = true ∧
      (2.0 : Float).abs ≤ 1e6 ∧ ∀ e ∈ top (threeOf 2.0) 3, (e.2 == 2.0) = true := by
    decide +kernel
  have htenth : 3 ≤ (threeOf 0.1).entries.length ∧ (0.1 : Float).isFinite = true ∧
      (0.1 : Float).abs ≤ 1e6 ∧ ∀ e ∈ top (threeOf 0.1) 3, (e.2 == 0.1) = true := by
    decide +kernel
  have hpos : (0.0 : Float) < 0.001 := by decide +kernel
  have hle : (0.001 : Float) ≤ 1.0 := by decide +kernel
  have hvalue : value? 2.0 = some ((2 : ℤ) : ℚ) := by
    have hbits : (2.0 : Float).toModel.unpack = .finite .positive (2 ^ 52) (-51) (by decide) := by
      rfl
    rw [value?, hbits, fraction?]
    norm_num [Float.Model.UnpackedFloat.Sign.apply]
  obtain ⟨hequal, -, hwhole⟩ := weights_of_equal_scores (n := 3) (by decide) (by decide)
    htwo.1 htwo.2.1 htwo.2.2.1 htwo.2.2.2 hpos hle
  obtain ⟨-, hlost, -⟩ := weights_of_equal_scores (n := 3) (by decide) (by decide)
    htenth.1 htenth.2.1 htenth.2.2.1 htenth.2.2.2 hpos hle
  exact ⟨by decide, hpos, hle, htwo, hequal (hwhole 2 hvalue (by decide)), htenth,
    hlost (by decide +kernel) (by decide +kernel)⟩

/-- **Equal scores do not always fall back to equal parts.** -/
theorem threeOf_tenth_not_equal : 3 ≤ (threeOf 0.1).entries.length ∧
    (0.1 : Float).isFinite = true ∧ (0.1 : Float).abs ≤ 1e6 ∧
      (∀ e ∈ top (threeOf 0.1) 3, (e.2 == 0.1) = true) ∧
      (0.0 : Float) < 0.999 ∧ (0.999 : Float) ≤ 1.0 ∧
      ∀ weights, (WeightingPolicy.zScoreTilt 0.999).weights (threeOf 0.1) 3 ≠ .ok weights := by
  have hlost : ((WeightingPolicy.zScoreTilt 0.999).weights (threeOf 0.1) 3).isOk = false := by
    decide +kernel
  refine ⟨by decide +kernel, by decide +kernel, by decide +kernel, by decide +kernel,
    by decide +kernel, by decide +kernel, fun weights h => ?_⟩
  rw [h] at hlost
  cases hlost

end Weights

end FactorPortfolio.Weighting
