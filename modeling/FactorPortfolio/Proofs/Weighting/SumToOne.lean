import Mathlib.Algebra.BigOperators.Ring.List
import Mathlib.Algebra.Order.BigOperators.Group.List
import Mathlib.Tactic.FieldSimp
import Mathlib.Tactic.Positivity
import FactorPortfolio.Proofs.Scalar.Exact
import FactorPortfolio.Proofs.Table
import FactorPortfolio.Weighting

/-!
# Weights sum to one

In exact arithmetic the weights of a target are as many as were asked for and sum to one, whether
they are equal parts or parts tilted with an intensity from 0 to 1 (`sum_weights`).  Tilts add up to
nothing, since distances from the mean do (`sum_zScores`), and no tilted part is negative
(`tilted_nonneg`), so that none is cut off at zero.
-/

namespace FactorPortfolio

/-- Equal parts, or parts tilted with an intensity that settings allow. -/
def WeightingPolicy.Admissible {α : Type} [Scalar α] : WeightingPolicy α → Prop
  | .equal => True
  | .zScoreTilt intensity => (0.0 : α) < intensity ∧ intensity ≤ 1.0

namespace Weighting

theorem nodup_top {α : Type} [Scalar α] (scores : Table Symbol α) (n : Nat) :
    ((top scores n).map Prod.fst).Nodup := by
  have hrank : ((rank scores).map Prod.fst).Nodup :=
    ((Sorting.sort_perm ranksBefore scores.entries).map Prod.fst).nodup_iff.2 scores.nodup_keys
  exact hrank.sublist ((List.take_sublist n (rank scores)).map Prod.fst)

theorem length_top {α : Type} [Scalar α] (scores : Table Symbol α) (n : Nat) :
    (top scores n).length = min n scores.entries.length := by
  rw [top, List.length_take, rank, (Sorting.sort_perm ranksBefore scores.entries).length_eq]

/-- Only a symbol that is alone escapes the tilt. -/
theorem distribute_zScoreTilt {α : Type} [Scalar α] {selected : List (Symbol × α)}
    (h : 2 ≤ selected.length) (intensity : α) :
    distribute (.zScoreTilt intensity) selected = tiltedWeights selected intensity := by
  match selected with
  | [] => cases h
  | [_] => simp at h
  | _ :: _ :: _ => rfl

theorem sum_map_affine {α : Type} [Field α] (l : List (Symbol × α)) (a c : α) :
    (l.map fun e => a + c * e.2).sum = l.length * a + c * (l.map Prod.snd).sum := by
  rw [List.sum_map_add, List.sum_map_mul_left, List.map_const', List.sum_replicate, nsmul_eq_mul]

variable {α : Type} [Field α] [LinearOrder α] [FloorRing α] [InexactFunctions α]
  {selected : List (Symbol × α)}

theorem foldl_min_le (l : List α) (a : α) :
    l.foldl Scalar.min a ≤ a ∧ ∀ x ∈ l, l.foldl Scalar.min a ≤ x := by
  induction l generalizing a with
  | nil => exact ⟨le_refl a, by simp⟩
  | cons x l ih =>
    obtain ⟨hstart, hl⟩ := ih (Scalar.min a x)
    rw [List.foldl_cons]
    have hmin := Exact.min_eq_min a x
    refine ⟨hstart.trans (hmin ▸ min_le_left a x), fun y hy => ?_⟩
    rcases List.mem_cons.1 hy with rfl | hy
    · exact hstart.trans (hmin ▸ min_le_right a y)
    · exact hl y hy

theorem le_foldl_min {l : List α} {a b : α} (ha : b ≤ a) (hl : ∀ x ∈ l, b ≤ x) :
    b ≤ l.foldl Scalar.min a := by
  induction l generalizing a with
  | nil => exact ha
  | cons x l ih =>
    obtain ⟨hx, hl⟩ := List.forall_mem_cons.1 hl
    rw [List.foldl_cons]
    exact ih (Exact.min_eq_min a x ▸ le_min ha hx) hl

theorem share_eq : share selected = 1 / (selected.length : α) := by
  rw [share]
  norm_num

structure Parts (selected parts : List (Symbol × α)) : Prop where
  symbols : parts.map Prod.fst = selected.map Prod.fst
  sum : (parts.map Prod.snd).sum = 1

theorem parts_equal (hne : selected ≠ []) :
    Parts selected (selected.map fun e => (e.1, share selected)) := by
  have hlength : (selected.length : α) ≠ 0 := by
    simpa using hne
  constructor
  · rw [List.map_map]
    rfl
  · rw [List.map_map]
    show (selected.map fun _ => share selected).sum = 1
    rw [List.map_const', List.sum_replicate, share_eq, nsmul_eq_mul]
    field_simp

/-! ### Tilts -/

/-- **Distances from the mean add up to nothing.** -/
theorem sum_zScores (hne : selected ≠ []) (s : α) :
    ((zScores selected s).map Prod.snd).sum = 0 := by
  have hlength : (selected.length : α) ≠ 0 := by
    simpa using hne
  rw [zScores, List.map_map]
  show (selected.map fun e => (e.2 - Scalar.mean (selected.map Prod.snd)) / s).sum = 0
  have haffine : ∀ e : Symbol × α, (e.2 - Scalar.mean (selected.map Prod.snd)) / s =
      -Scalar.mean (selected.map Prod.snd) / s + s⁻¹ * e.2 := by
    intro e
    ring
  simp only [haffine]
  rw [sum_map_affine, Exact.mean_eq, List.length_map]
  field_simp
  ring

variable [IsStrictOrderedRing α]

theorem headroom_nonneg {base z : α} (h : 0 ≤ base) (h' : base ≤ 1) : 0 ≤ headroom base z := by
  rw [headroom]
  split
  · rename_i hz
    norm_num at hz ⊢
    exact div_nonneg (by linarith) hz.le
  · rename_i hz
    norm_num at hz
    exact div_nonneg h (by linarith)

theorem maxScale_nonneg {base : α} (h : 0 ≤ base) (h' : base ≤ 1) (zs : List (Symbol × α)) :
    0 ≤ maxScale base zs := by
  refine le_foldl_min (by norm_num) fun x hx => ?_
  obtain ⟨e, _, rfl⟩ := List.mem_map.1 hx
  exact headroom_nonneg h h'

theorem maxScale_mul_le {base : α} {zs : List (Symbol × α)} {e : Symbol × α} (he : e ∈ zs)
    (hz : e.2 < 0) : maxScale base zs * -e.2 ≤ base := by
  have hne : (e.2 != 0.0) = true := by
    rw [bne_iff_ne]
    norm_num
    exact hz.ne
  have hle : maxScale base zs ≤ headroom base e.2 :=
    (foldl_min_le _ _).2 _ (List.mem_map_of_mem (List.mem_filter.2 ⟨he, hne⟩))
  have hroom : headroom base e.2 = base / -e.2 := by
    rw [headroom, if_neg]
    norm_num
    exact hz.le
  calc maxScale base zs * -e.2 ≤ base / -e.2 * -e.2 :=
        mul_le_mul_of_nonneg_right (hroom ▸ hle) (by linarith)
    _ = base := div_mul_cancel₀ base (by linarith)

/-- **No tilted part is negative.** -/
theorem tilted_nonneg {base intensity : α} (hbase : 0 ≤ base) (hbase' : base ≤ 1)
    (hpos : 0 ≤ intensity) (hle : intensity ≤ 1) {zs : List (Symbol × α)} {e : Symbol × α}
    (he : e ∈ zs) : 0 ≤ base + maxScale base zs * intensity * e.2 := by
  have hscale := maxScale_nonneg hbase hbase' zs
  rcases le_or_gt 0 e.2 with hz | hz
  · have := mul_nonneg (mul_nonneg hscale hpos) hz
    linarith
  · have hfull : maxScale base zs * -e.2 ≤ base := maxScale_mul_le he hz
    have hpart : intensity * (maxScale base zs * -e.2) ≤ 1 * (maxScale base zs * -e.2) :=
      mul_le_mul_of_nonneg_right hle (mul_nonneg hscale (by linarith))
    linarith

theorem share_bounds (hne : selected ≠ []) : 0 ≤ share selected ∧ share selected ≤ 1 := by
  have hlength : (1 : α) ≤ selected.length := by
    exact_mod_cast List.length_pos_of_ne_nil hne
  rw [share_eq]
  exact ⟨by positivity, by rw [div_le_one (by linarith)]; exact hlength⟩

/-- **Parts that are tilted sum to one**, since none of them has to be cut off at zero. -/
theorem parts_tilted (hne : selected ≠ []) {intensity : α} (hpos : 0 ≤ intensity)
    (hle : intensity ≤ 1) (stdev : α) :
    Parts selected ((zScores selected stdev).map fun e => (e.1, Scalar.max
      (share selected + maxScale (share selected) (zScores selected stdev) * intensity * e.2)
      0.0)) := by
  have hlength : (selected.length : α) ≠ 0 := by
    simpa using hne
  obtain ⟨hbase, hbase'⟩ := share_bounds hne
  constructor
  · rw [List.map_map, zScores, List.map_map]
    rfl
  · have hparts : ∀ e ∈ zScores selected stdev, Scalar.max (share selected +
        maxScale (share selected) (zScores selected stdev) * intensity * e.2) 0.0 =
        share selected + maxScale (share selected) (zScores selected stdev) * intensity * e.2 := by
      intro e he
      rw [Exact.max_eq_max]
      norm_num
      exact tilted_nonneg hbase hbase' hpos hle he
    rw [List.map_map]
    refine (congrArg List.sum (List.map_congr_left hparts)).trans ?_
    rw [sum_map_affine, sum_zScores hne, mul_zero, add_zero, zScores, List.length_map, share_eq]
    field_simp

/-! ### All weights -/

theorem exists_parts {policy : WeightingPolicy α} (h : policy.Admissible) (hne : selected ≠ []) :
    ∃ parts, distribute policy selected = Table.ofList parts ∧ Parts selected parts := by
  rw [distribute.eq_def]
  split
  · exact ⟨_, rfl, rfl, by norm_num⟩
  · exact ⟨_, rfl, parts_equal hne⟩
  · rename_i intensity _
    have hpos : 0 ≤ intensity := by
      have := h.1
      norm_num at this
      exact this.le
    have hle : intensity ≤ 1 := by
      have := h.2
      norm_num at this
      exact this
    rw [tiltedWeights]
    split
    · exact ⟨_, rfl, parts_equal hne⟩
    · rename_i stdev _
      exact ⟨_, rfl, parts_tilted hne hpos hle stdev⟩

/-- **The weights of a target are as many as asked for and sum to one.** -/
theorem sum_weights {policy : WeightingPolicy α} (hpolicy : policy.Admissible)
    {scores weights : Table Symbol α} {n : Nat} (hn : n ≠ 0)
    (h : policy.weights scores n = .ok weights) :
    weights.entries.length = n ∧ weights.values.sum = 1 := by
  rw [WeightingPolicy.weights] at h
  split at h
  · rename_i hlength
    dsimp only at h
    split at h
    · cases h
    · obtain rfl := Except.ok.inj h
      have hne : top scores n ≠ [] := by
        rw [← List.length_pos_iff_ne_nil, hlength]
        exact Nat.pos_of_ne_zero hn
      obtain ⟨parts, heq, hparts⟩ := exists_parts hpolicy hne
      have hkeys : (parts.map Prod.fst).Nodup := hparts.symbols ▸ nodup_top scores n
      have hperm := Table.entries_ofList_perm hkeys
      have hcount : parts.length = n := by
        have := congrArg List.length hparts.symbols
        rwa [List.length_map, List.length_map, hlength] at this
      rw [heq]
      exact ⟨hperm.length_eq.trans hcount, (hperm.map Prod.snd).sum_eq.trans hparts.sum⟩
  · cases h

end Weighting

end FactorPortfolio
