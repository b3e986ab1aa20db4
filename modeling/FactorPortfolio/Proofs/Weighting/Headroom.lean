import Mathlib.Tactic.FieldSimp
import Mathlib.Tactic.Linarith
import Mathlib.Tactic.Positivity
import FactorPortfolio.Proofs.Weighting.SumToOne

/-!
# The headroom of a tilt

The tilt of selected symbols goes as far as the weights stay between 0 and 1, and no further: the
scale that the headrooms give is the greatest of all that keep every weight in range
(`isGreatest_maxScale`).  It never comes near the cap of 1.  Distances from the mean add up to
nothing and their squares to one less than their number (`sum_sq_zScores`), so a tilt by 1 or more
would make the squares of the weights sum to more than the weights do (`lt_one_of_inRange`).
`weights_tilted` gathers what this means for the weights of the best symbols.
-/

namespace FactorPortfolio.Weighting

variable {α : Type} [Field α] [LinearOrder α] [FloorRing α] [InexactFunctions α]
  {selected : List (Symbol × α)} {base : α} {zs : List (Symbol × α)}

/-! ### Squares of the distances -/

/-- The root of a number above zero is the number above zero that it is the square of. -/
def RootOf (x : α) : Prop := 0 < x → 0 < Scalar.sqrt x ∧ Scalar.sqrt x * Scalar.sqrt x = x

def squares (xs : List α) : α := (xs.map fun x => (x - Scalar.mean xs) * (x - Scalar.mean xs)).sum

theorem sampleVariance_eq (xs : List α) :
    Scalar.sampleVariance xs = squares xs / (xs.length - 1) := by
  rw [Scalar.sampleVariance, squares, Exact.sum_eq_sum]
  norm_num

/-- **The squares of the distances in deviations sum to one less than their number.** -/
theorem sum_sq_zScores {stdev : α} (hstdev : stdev ≠ 0)
    (hsquare : stdev * stdev = Scalar.sampleVariance (selected.map Prod.snd)) :
    ((zScores selected stdev).map fun e => e.2 * e.2).sum = selected.length - 1 := by
  have hsquares : squares (selected.map Prod.snd) = stdev * stdev * (selected.length - 1) := by
    have hvariance := sampleVariance_eq (selected.map Prod.snd)
    rw [List.length_map] at hvariance
    have hcount : (selected.length : α) - 1 ≠ 0 := by
      intro hzero
      rw [hzero, div_zero] at hvariance
      exact mul_ne_zero hstdev hstdev (hsquare.trans hvariance)
    rw [hsquare, hvariance, div_mul_cancel₀ _ hcount]
  have hscaled : ((zScores selected stdev).map fun e => e.2 * e.2).sum =
      squares (selected.map Prod.snd) * (stdev * stdev)⁻¹ := by
    rw [squares, ← List.sum_map_mul_right, zScores, List.map_map, List.map_map]
    refine congrArg List.sum (List.map_congr_left fun e _ => ?_)
    simp only [Function.comp_apply]
    field_simp
  rw [hscaled, hsquares]
  field_simp

variable [IsStrictOrderedRing α]

theorem sampleVariance_pos {xs : List α} {x y : α} (hx : x ∈ xs) (hy : y ∈ xs) (hne : x ≠ y) :
    0 < Scalar.sampleVariance xs := by
  have hcount : (1 : α) < xs.length := by
    have : 1 < xs.length := by
      by_contra hle
      obtain ⟨z, rfl⟩ | rfl : (∃ z, xs = [z]) ∨ xs = [] := by
        cases xs with
        | nil => exact .inr rfl
        | cons z rest => exact .inl ⟨z, by simp at hle; rw [hle]⟩
      · exact hne ((List.mem_singleton.1 hx).trans (List.mem_singleton.1 hy).symm)
      · cases hx
    exact_mod_cast this
  have hnonneg : ∀ d ∈ xs.map fun x => (x - Scalar.mean xs) * (x - Scalar.mean xs), 0 ≤ d := by
    intro d hd
    obtain ⟨z, _, rfl⟩ := List.mem_map.1 hd
    exact mul_self_nonneg _
  have hle : ∀ z ∈ xs, (z - Scalar.mean xs) * (z - Scalar.mean xs) ≤ squares xs := fun z hz =>
    List.single_le_sum hnonneg _ (List.mem_map_of_mem hz)
  -- one of the two is not the mean
  obtain ⟨z, hz, hdist⟩ : ∃ z ∈ xs, z - Scalar.mean xs ≠ 0 := by
    by_cases h : x - Scalar.mean xs = 0
    · refine ⟨y, hy, fun h' => hne ?_⟩
      rw [sub_eq_zero.1 h, sub_eq_zero.1 h']
    · exact ⟨x, hx, h⟩
  rw [sampleVariance_eq]
  exact div_pos ((mul_self_pos.2 hdist).trans_le (hle z hz)) (sub_pos.2 hcount)

/-! ### Scales that keep weights in range -/

/-- The scale does not turn the tilt around, and leaves every weight between 0 and 1. -/
structure InRange (base : α) (zs : List (Symbol × α)) (scale : α) : Prop where
  nonneg : 0 ≤ scale
  weights : ∀ e ∈ zs, 0 ≤ base + scale * e.2 ∧ base + scale * e.2 ≤ 1

/-- **No scale in range reaches 1.**  The weights sum to 1, and being in range they are no less
than their squares; with a scale of 1 the squares would sum to more. -/
theorem lt_one_of_inRange {scale : α} (h : InRange base zs scale) (hcount : 2 ≤ zs.length)
    (hbase : base = 1 / zs.length) (hsum : (zs.map Prod.snd).sum = 0)
    (hsquares : (zs.map fun e => e.2 * e.2).sum = zs.length - 1) : scale < 1 := by
  have htwo : (2 : α) ≤ zs.length := by exact_mod_cast hcount
  have hparts : (zs.map fun e => base + scale * e.2).sum = 1 := by
    rw [sum_map_affine, hsum, mul_zero, add_zero, hbase]
    field_simp
  have hsquared : (zs.map fun e => (base + scale * e.2) * (base + scale * e.2)).sum =
      base + scale * scale * (zs.length - 1) := by
    have hexpand : ∀ e : Symbol × α, (base + scale * e.2) * (base + scale * e.2) =
        base * base + 2 * base * scale * e.2 + scale * scale * (e.2 * e.2) := by
      intro e
      ring
    simp only [hexpand]
    rw [List.sum_map_add, sum_map_affine, hsum, List.sum_map_mul_left, hsquares, mul_zero, add_zero,
      hbase]
    field_simp
  have hle : (zs.map fun e => (base + scale * e.2) * (base + scale * e.2)).sum ≤
      (zs.map fun e => base + scale * e.2).sum := by
    refine List.sum_le_sum fun e he => ?_
    obtain ⟨hlow, hhigh⟩ := h.weights e he
    exact mul_le_of_le_one_right hlow hhigh
  rw [hparts, hsquared] at hle
  have hpos : 0 < base := by
    rw [hbase]
    positivity
  by_contra hone
  have hscale : 1 ≤ scale * scale := one_le_mul_of_one_le_of_one_le (not_lt.1 hone) (not_lt.1 hone)
  nlinarith

theorem mul_le_one_of_headroom {scale : α} {e : Symbol × α} (he : 0 < e.2)
    (h : scale ≤ headroom base e.2) : base + scale * e.2 ≤ 1 := by
  rw [headroom, if_pos (by norm_num; exact he), le_div_iff₀ he] at h
  norm_num at h
  linarith

theorem inRange_maxScale (hbase : 0 ≤ base) (hbase' : base ≤ 1) :
    InRange base zs (maxScale base zs) where
  nonneg := maxScale_nonneg hbase hbase' zs
  weights e he := by
    have hscale := maxScale_nonneg hbase hbase' zs
    rcases lt_trichotomy e.2 0 with hz | hz | hz
    · have hlow : maxScale base zs * -e.2 ≤ base := maxScale_mul_le he hz
      have hneg := mul_nonneg hscale (neg_nonneg.2 hz.le)
      constructor <;> linarith
    · rw [hz, mul_zero, add_zero]
      exact ⟨hbase, hbase'⟩
    · have hroom : maxScale base zs ≤ headroom base e.2 :=
        (foldl_min_le _ _).2 _ (List.mem_map_of_mem (List.mem_filter.2
          ⟨he, by rw [bne_iff_ne]; norm_num; exact hz.ne'⟩))
      have hpos := mul_nonneg hscale hz.le
      exact ⟨by linarith, mul_le_one_of_headroom hz hroom⟩

theorem le_headroom {scale z : α} (hz : z ≠ 0) (hlow : 0 ≤ base + scale * z)
    (hhigh : base + scale * z ≤ 1) : scale ≤ headroom base z := by
  rw [headroom]
  split
  · rename_i hpos
    norm_num at hpos ⊢
    rw [le_div_iff₀ hpos]
    linarith
  · rename_i hneg
    norm_num at hneg
    rw [le_div_iff₀ (neg_pos.2 (lt_of_le_of_ne hneg hz))]
    linarith

theorem le_maxScale {scale : α} (h : InRange base zs scale) (hone : scale ≤ 1) :
    scale ≤ maxScale base zs := by
  refine le_foldl_min (by norm_num; exact hone) fun x hx => ?_
  obtain ⟨e, he, rfl⟩ := List.mem_map.1 hx
  obtain ⟨he, hne⟩ := List.mem_filter.1 he
  rw [bne_iff_ne] at hne
  norm_num at hne
  obtain ⟨hlow, hhigh⟩ := h.weights e he
  exact le_headroom hne hlow hhigh

/-- **The headrooms give the greatest scale that keeps all weights in range**, and it is below the
cap. -/
theorem isGreatest_maxScale (hcount : 2 ≤ zs.length) (hbase : base = 1 / zs.length)
    (hsum : (zs.map Prod.snd).sum = 0)
    (hsquares : (zs.map fun e => e.2 * e.2).sum = zs.length - 1) :
    IsGreatest {scale | InRange base zs scale} (maxScale base zs) ∧ maxScale base zs < 1 := by
  have htwo : (2 : α) ≤ zs.length := by exact_mod_cast hcount
  have hlow : 0 ≤ base := by
    rw [hbase]
    positivity
  have hhigh : base ≤ 1 := by
    rw [hbase, div_le_one (by linarith)]
    linarith
  have hmax : InRange base zs (maxScale base zs) := inRange_maxScale hlow hhigh
  refine ⟨⟨hmax, fun scale hscale => le_maxScale hscale ?_⟩,
    lt_one_of_inRange hmax hcount hbase hsum hsquares⟩
  exact (lt_one_of_inRange hscale hcount hbase hsum hsquares).le

/-! ### The weights -/

/-- Between no tilt and a tilt in range all tilts are in range. -/
theorem InRange.of_le {scale scale' : α} (h : InRange base zs scale) (hbase : 0 ≤ base)
    (hbase' : base ≤ 1) (hnonneg : 0 ≤ scale') (hle : scale' ≤ scale) : InRange base zs scale' where
  nonneg := hnonneg
  weights e he := by
    obtain ⟨hlow, hhigh⟩ := h.weights e he
    rcases le_total 0 e.2 with hz | hz
    · have hpos := mul_nonneg hnonneg hz
      have hmul := mul_le_mul_of_nonneg_right hle hz
      constructor <;> linarith
    · have hneg := mul_nonpos_of_nonneg_of_nonpos hnonneg hz
      have hmul := mul_le_mul_of_nonpos_right hle hz
      constructor <;> linarith

theorem fault?_eq_none {weights : Table Symbol α} (hnonneg : ∀ x ∈ weights.values, 0 ≤ x)
    (hsum : weights.values.sum = 1) : fault? weights = none := by
  have hsingle : (weights.entries.findSome? fun e => weightFault? e.1 e.2) = none := by
    rw [List.findSome?_eq_none_iff]
    intro e he
    have hlow : ¬ e.2 < 0.0 := by
      norm_num
      exact hnonneg e.2 (List.mem_map_of_mem he)
    show (if (!true) = true then _ else if e.2 < 0.0 then _ else none) = none
    rw [if_neg (by decide), if_neg hlow]
  have htolerance : ¬ sumTolerance < |weights.values.sum - 1.0| := by
    rw [hsum, sumTolerance]
    norm_num
  rw [fault?, hsingle]
  simp only
  rw [Exact.sum_eq_sum]
  exact if_neg htolerance

def tiltedParts (base scale : α) (zs : List (Symbol × α)) : List (Symbol × α) :=
  zs.map fun e => (e.1, base + scale * e.2)

omit [IsStrictOrderedRing α] in
/-- A scale in range leaves nothing to cut off. -/
theorem InRange.map_max_eq {scale : α} (h : InRange base zs scale) :
    (zs.map fun e => (e.1, Scalar.max (base + scale * e.2) 0.0)) = tiltedParts base scale zs := by
  refine List.map_congr_left fun e he => ?_
  rw [Exact.max_eq_max, Exact.zero_eq, max_eq_left (h.weights e he).1]

/-- The weights of selected symbols that are tilted as far as an intensity says. -/
structure Tilted (selected : List (Symbol × α)) (intensity stdev : α) (weights : Table Symbol α) :
    Prop where
  deviation : 0 < stdev ∧ stdev * stdev = Scalar.sampleVariance (selected.map Prod.snd)
  greatest : IsGreatest {scale | InRange (share selected) (zScores selected stdev) scale}
    (maxScale (share selected) (zScores selected stdev))
  uncapped : maxScale (share selected) (zScores selected stdev) < 1
  /-- None of the weights is cut off at zero. -/
  weight : ∀ e ∈ selected, weights.get? e.1 = some (1 / selected.length +
    maxScale (share selected) (zScores selected stdev) * intensity *
      ((e.2 - Scalar.mean (selected.map Prod.snd)) / stdev))
  count : weights.entries.length = selected.length
  between : ∀ x ∈ weights.values, 0 ≤ x ∧ x ≤ 1
  sum : weights.values.sum = 1
  monotone : ∀ e ∈ selected, ∀ e' ∈ selected, e.2 ≤ e'.2 →
    ∀ x ∈ weights.get? e.1, ∀ x' ∈ weights.get? e'.1, x ≤ x'

theorem tilted_tiltedWeights (hcount : 2 ≤ selected.length)
    (hsymbols : (selected.map Prod.fst).Nodup) {intensity stdev : α} (hpos : 0 ≤ intensity)
    (hle : intensity ≤ 1)
    (hstdev : Scalar.sqrt (Scalar.sampleVariance (selected.map Prod.snd)) = stdev)
    (hroot : 0 < stdev ∧ stdev * stdev = Scalar.sampleVariance (selected.map Prod.snd)) :
    Tilted selected intensity stdev (tiltedWeights selected intensity) := by
  have hne : selected ≠ [] := List.ne_nil_of_length_pos (by omega)
  obtain ⟨hbase, hbase'⟩ := share_bounds hne
  have hlength : (zScores selected stdev).length = selected.length := List.length_map ..
  have hbaseEq : share selected = 1 / ((zScores selected stdev).length : α) := by
    rw [hlength, share_eq]
  obtain ⟨hgreatest, huncapped⟩ := isGreatest_maxScale (by rwa [hlength]) hbaseEq
    (sum_zScores hne stdev) (by rw [hlength, sum_sq_zScores hroot.1.ne' hroot.2])
  have hscale := hgreatest.1.nonneg
  have hrange := hgreatest.1.of_le hbase hbase' (mul_nonneg hscale hpos)
    (mul_le_of_le_one_right hscale hle)
  have hparts := parts_tilted hne hpos hle stdev
  have htilted : tiltedWeights selected intensity = Table.ofList (tiltedParts (share selected)
      (maxScale (share selected) (zScores selected stdev) * intensity)
      (zScores selected stdev)) := by
    rw [tiltedWeights, Scalar.sampleStdev?, if_neg (by rw [List.length_map]; omega), hstdev,
      Option.filter_some, if_pos (by norm_num; exact hroot.1), ← hrange.map_max_eq]
  rw [hrange.map_max_eq] at hparts
  have hperm := Table.entries_ofList_perm (hparts.symbols ▸ hsymbols)
  have hweight : ∀ e ∈ selected, (tiltedWeights selected intensity).get? e.1 =
      some (share selected + maxScale (share selected) (zScores selected stdev) * intensity *
        ((e.2 - Scalar.mean (selected.map Prod.snd)) / stdev)) := by
    intro e he
    rw [htilted, Table.get?_eq_some_iff, hperm.mem_iff]
    exact List.mem_map_of_mem (List.mem_map_of_mem he)
  constructor
  case deviation => exact hroot
  case greatest => exact hgreatest
  case uncapped => exact huncapped
  case weight =>
    intro e he
    rw [hweight e he, share_eq]
  case count =>
    rw [htilted, hperm.length_eq, tiltedParts, List.length_map, hlength]
  case between =>
    intro x hx
    rw [htilted, Table.values, (hperm.map Prod.snd).mem_iff, tiltedParts, List.map_map] at hx
    obtain ⟨e, he, rfl⟩ := List.mem_map.1 hx
    exact hrange.weights e he
  case sum =>
    rw [htilted, Table.values, (hperm.map Prod.snd).sum_eq, hparts.sum]
  case monotone =>
    intro e he e' he' hscore x hx x' hx'
    rw [hweight e he] at hx
    rw [hweight e' he'] at hx'
    cases hx
    cases hx'
    have hdistance := div_le_div_of_nonneg_right
      (sub_le_sub_right hscore (Scalar.mean (selected.map Prod.snd))) hroot.1.le
    exact add_le_add le_rfl (mul_le_mul_of_nonneg_left hdistance hrange.nonneg)

/-- **The tilt uses its intensity of the headroom that there is, and spoils no weight.**  The best
symbols, if their scores are not all equal, get weights between 0 and 1 that sum to 1, and of two of
them the one with the higher score gets no less.  The scale is the intensity's part of the greatest
one that keeps all weights in range. -/
theorem weights_tilted {scores : Table Symbol α} {n : Nat} (hn : 2 ≤ n)
    (hscores : n ≤ scores.entries.length)
    (hspread : ∃ e ∈ top scores n, ∃ e' ∈ top scores n, e.2 ≠ e'.2)
    (hroot : RootOf (Scalar.sampleVariance ((top scores n).map Prod.snd))) {intensity : α}
    (hpos : 0 < intensity) (hle : intensity ≤ 1) :
    ∃ weights, (WeightingPolicy.zScoreTilt intensity).weights scores n = .ok weights ∧
      Tilted (top scores n) intensity
        (Scalar.sqrt (Scalar.sampleVariance ((top scores n).map Prod.snd))) weights := by
  have hlength : (top scores n).length = n := by
    rw [length_top, min_eq_left hscores]
  have hcount : 2 ≤ (top scores n).length := by omega
  obtain ⟨e, he, e', he', hne⟩ := hspread
  have hvariance := sampleVariance_pos (List.mem_map_of_mem (f := Prod.snd) he)
    (List.mem_map_of_mem he') hne
  have htilted := tilted_tiltedWeights hcount (nodup_top scores n) hpos.le hle rfl
    (hroot hvariance)
  refine ⟨_, ?_, htilted⟩
  rw [WeightingPolicy.weights, if_pos hlength, distribute_zScoreTilt hcount]
  simp only
  rw [fault?_eq_none (fun x hx => (htilted.between x hx).1) htilted.sum]

/-- Three scores of which one is far below the others, and one that is not selected. -/
def skewedScores : Table Symbol ℚ :=
  Table.ofList [("AAPL", 13), ("AMZN", -5), ("GOOG", 0), ("MSFT", 11)]

/-- The deviation is 7, and the lowest score bounds the tilt: seven parts of 24. -/
theorem weights_tilted_skewedScores :
    2 ≤ 3 ∧ 3 ≤ skewedScores.entries.length ∧
    top skewedScores 3 = [("AAPL", 13), ("MSFT", 11), ("GOOG", 0)] ∧
    RootOf (Scalar.sampleVariance ((top skewedScores 3).map Prod.snd)) ∧ (0 : ℚ) < 0.5 ∧
    (0.5 : ℚ) ≤ 1 ∧ ∃ weights,
      (WeightingPolicy.zScoreTilt (0.5 : ℚ)).weights skewedScores 3 = .ok weights ∧
      Tilted (top skewedScores 3) 0.5 7 weights ∧
      maxScale (share (top skewedScores 3)) (zScores (top skewedScores 3) 7) = 7 / 24 := by
  have htop : top skewedScores 3 = [("AAPL", 13), ("MSFT", 11), ("GOOG", 0)] := by
    decide +kernel
  have hvariance : Scalar.sampleVariance ((top skewedScores 3).map Prod.snd) = 49 := by
    decide +kernel
  have hsqrt : Scalar.sqrt (49 : ℚ) = 7 := by
    decide +kernel
  have hroot : RootOf (Scalar.sampleVariance ((top skewedScores 3).map Prod.snd)) := by
    intro _
    rw [hvariance, hsqrt]
    norm_num
  have hpos : (0 : ℚ) < 0.5 := by norm_num
  obtain ⟨weights, hweights, htilted⟩ := weights_tilted (n := 3) (by decide) (by decide +kernel)
    ⟨("AAPL", 13), by simp [htop], ("GOOG", 0), by simp [htop], by norm_num⟩ hroot hpos
    (by norm_num)
  rw [hvariance, hsqrt] at htilted
  exact ⟨by decide, by decide +kernel, htop, hroot, hpos, by norm_num, weights, hweights,
    htilted, by decide +kernel⟩

end FactorPortfolio.Weighting
