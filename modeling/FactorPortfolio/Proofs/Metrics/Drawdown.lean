import Mathlib.Order.Bounds.Defs
import Mathlib.Tactic.Linarith
import FactorPortfolio.Metrics
import FactorPortfolio.Proofs.Scalar.Order

/-!
# How deep a series falls

The metrics pass over a series once and hold the highest value so far, which changes the base that
later falls are measured against.  That this finds the deepest of all falls, from any value to any
later one, is shown by what one value changes:

* `Drawdown.next_cases`: a value sets a new peak, lies below the peak, or changes nothing.
* `IsHighest.next`: the peak stays the highest of the values seen.
* `isGreatest_largest_next`: the largest fall stays the greatest of all falls between values seen,
  because no value falls deeper to a new one than the peak does (`fall_le_fall`).

`drawdown_induction` takes such steps to a whole series, and `max_drawdown_law` says what they come
to.
-/

namespace FactorPortfolio

namespace Metrics

/-! ### One value -/

section

variable {α : Type} [Scalar α] {values : List α} {d : Drawdown α} {v : α}

theorem Drawdown.next_cases (d : Drawdown α) (v : α) :
    (d.peak < v ∧ d.next v = { d with peak := v, current := 0 }) ∨
    (¬ d.peak < v ∧ ((0.0 : α) < d.peak ∧ v < d.peak) ∧
      d.next v = ⟨d.peak, Scalar.max d.largest ((d.peak - v) / d.peak),
        Nat.max d.longest (d.current + 1), d.current + 1⟩) ∨
    (¬ d.peak < v ∧ ¬ ((0.0 : α) < d.peak ∧ v < d.peak) ∧ d.next v = d) := by
  rw [Drawdown.next]
  by_cases hpeak : d.peak < v
  · rw [if_pos hpeak]
    exact .inl ⟨hpeak, rfl⟩
  · rw [if_neg hpeak]
    by_cases hbelow : (0.0 : α) < d.peak ∧ v < d.peak
    · rw [if_pos (by simpa using hbelow)]
      exact .inr (.inl ⟨hpeak, hbelow, rfl⟩)
    · rw [if_neg (by simpa using hbelow)]
      exact .inr (.inr ⟨hpeak, hbelow, rfl⟩)

structure IsHighest (values : List α) (x : α) : Prop where
  mem : x ∈ values
  not_lt : ∀ v ∈ values, ¬ x < v

theorem not_lt_of_lt [NumericOrder α] {x y z : α} (hx : Scalar.isNaN x = false)
    (hy : Scalar.isNaN y = false) (hz : Scalar.isNaN z = false) (hxy : x < y) (h : ¬ x < z) :
    ¬ y < z := by
  obtain ⟨κ, _, place, hplace⟩ := NumericOrder.exists_place (α := α)
  rw [(hplace x y hx hy).1] at hxy
  rw [(hplace x z hx hz).1] at h
  rw [(hplace y z hy hz).1]
  exact fun hyz => h (hxy.trans hyz)

theorem not_lt_self [NumericOrder α] {x : α} (hx : Scalar.isNaN x = false) : ¬ x < x := by
  obtain ⟨κ, _, place, hplace⟩ := NumericOrder.exists_place (α := α)
  rw [(hplace x x hx hx).1]
  exact lt_irrefl _

/-- **The peak is the highest value seen.** -/
theorem IsHighest.next [NumericOrder α] (h : IsHighest values d.peak)
    (hnumbers : ∀ w ∈ values ++ [v], Scalar.isNaN w = false) :
    IsHighest (values ++ [v]) (d.next v).peak := by
  have hv : v ∈ values ++ [v] := List.mem_append_right _ (List.mem_singleton_self v)
  have hpeak := List.mem_append_left [v] h.mem
  have hkeep (hle : ¬ d.peak < v) : IsHighest (values ++ [v]) d.peak :=
    ⟨hpeak, List.forall_mem_append.2 ⟨h.not_lt, List.forall_mem_singleton.2 hle⟩⟩
  rcases d.next_cases v with ⟨hlt, heq⟩ | ⟨hle, -, heq⟩ | ⟨hle, -, heq⟩
  · rw [heq]
    refine ⟨hv, List.forall_mem_append.2 ⟨fun w hw => ?_, ?_⟩⟩
    · exact not_lt_of_lt (hnumbers _ hpeak) (hnumbers v hv)
        (hnumbers w (List.mem_append_left _ hw)) hlt (h.not_lt w hw)
    · exact List.forall_mem_singleton.2 (not_lt_self (hnumbers v hv))
  · rw [heq]
    exact hkeep hle
  · rw [heq]
    exact hkeep hle

/-! ### A whole series -/

/-- What holds of the first value and is kept by each one that follows holds of a series. -/
theorem drawdown_induction {P : List α → Drawdown α → Prop} {first : α} {rest : List α}
    (hself : ¬ first < first) (hfirst : P [first] ⟨first, 0.0, 0, 0⟩)
    (hnext : ∀ seen v more d, first :: rest = seen ++ v :: more → P seen d →
      P (seen ++ [v]) (d.next v)) :
    P (first :: rest) (drawdown first (first :: rest)) := by
  have hrun : ∀ more seen d, first :: rest = seen ++ more → P seen d →
      P (first :: rest) (more.foldl Drawdown.next d) := by
    intro more
    induction more with
    | nil =>
      intro seen d heq hd
      rw [heq, List.append_nil]
      exact hd
    | cons v more ih =>
      intro seen d heq hd
      exact ih (seen ++ [v]) (d.next v) (by rw [heq, List.append_assoc]; rfl)
        (hnext seen v more d heq hd)
  have hstart : Drawdown.next ⟨first, 0.0, 0, 0⟩ first = ⟨first, 0.0, 0, 0⟩ := by
    rcases Drawdown.next_cases ⟨first, 0.0, 0, 0⟩ first with ⟨h, -⟩ | ⟨-, ⟨-, h⟩, -⟩ | ⟨-, -, h⟩
    · exact absurd h hself
    · exact absurd h hself
    · exact h
  rw [drawdown, List.foldl_cons, hstart]
  exact hrun rest [first] _ rfl hfirst

theorem compute_cons (p : ValuePoint α) (points : List (ValuePoint α)) :
    (compute (p :: points)).maxDrawdown =
        (drawdown p.value ((p :: points).map ValuePoint.value)).largest ∧
      (compute (p :: points)).maxDrawdownDuration =
        (drawdown p.value ((p :: points).map ValuePoint.value)).longest :=
  ⟨rfl, rfl⟩

end

/-! ### Falls -/

section

variable {α : Type} [Field α] {values : List α} {v x : α}

/-- A fall from a value to the same or a later one, as a part of the value it starts from. -/
def IsFall (values : List α) (x : α) : Prop :=
  ∃ (i j : Nat) (v w : α), i ≤ j ∧ values[i]? = some v ∧ values[j]? = some w ∧ x = (v - w) / v

theorem isFall_concat : IsFall (values ++ [v]) x ↔
    IsFall values x ∨ ∃ w ∈ values ++ [v], x = (w - v) / w := by
  constructor
  · rintro ⟨i, j, a, b, hij, ha, hb, rfl⟩
    by_cases hj : j < values.length
    · rw [List.getElem?_append_left hj] at hb
      rw [List.getElem?_append_left (by omega)] at ha
      exact .inl ⟨i, j, a, b, hij, ha, hb, rfl⟩
    · have hlength : j < (values ++ [v]).length := (List.getElem?_eq_some_iff.1 hb).1
      rw [List.length_append, List.length_singleton] at hlength
      obtain rfl : j = values.length := by omega
      rw [List.getElem?_concat_length] at hb
      obtain rfl := Option.some.inj hb
      exact .inr ⟨a, List.mem_of_getElem? ha, rfl⟩
  · rintro (⟨i, j, a, b, hij, ha, hb, rfl⟩ | ⟨w, hw, rfl⟩)
    · have hj : j < values.length := (List.getElem?_eq_some_iff.1 hb).1
      refine ⟨i, j, a, b, hij, ?_, ?_, rfl⟩
      · rw [List.getElem?_append_left (by omega), ha]
      · rw [List.getElem?_append_left hj, hb]
    · obtain ⟨i, hi⟩ := List.mem_iff_getElem?.1 hw
      have hlength : i < (values ++ [v]).length := (List.getElem?_eq_some_iff.1 hi).1
      rw [List.length_append, List.length_singleton] at hlength
      exact ⟨i, values.length, w, v, by omega, hi, List.getElem?_concat_length, rfl⟩

theorem isFall_zero (h : values ≠ []) : IsFall values 0 := by
  obtain ⟨w, rest, rfl⟩ := List.exists_cons_of_ne_nil h
  exact ⟨0, 0, w, w, le_rfl, rfl, rfl, by rw [sub_self, zero_div]⟩

variable [LinearOrder α] [IsStrictOrderedRing α]

theorem fall_le_fall {w : α} (hw : 0 < w) (hv : 0 ≤ v) (hle : w ≤ x) :
    (w - v) / w ≤ (x - v) / x := by
  have hx := hw.trans_le hle
  rw [sub_div, sub_div, div_self hw.ne', div_self hx.ne']
  have := div_le_div_of_nonneg_left hv hw hle
  linarith

theorem isGreatest_zero_iff (hpos : ∀ w ∈ values, 0 < w)
    (h : IsGreatest {x | IsFall values x} x) :
    x = 0 ↔ values.IsChain (· ≤ ·) := by
  rw [List.isChain_iff_pairwise, List.pairwise_iff_getElem]
  obtain ⟨⟨i, j, a, b, hij, ha, hb, hx⟩, hgreatest⟩ := h
  have hne : values ≠ [] := List.ne_nil_of_mem (List.mem_of_getElem? ha)
  constructor
  · rintro rfl i j hi hj hij
    have hfall : IsFall values ((values[i] - values[j]) / values[i]) :=
      ⟨i, j, _, _, hij.le, List.getElem?_eq_getElem hi, List.getElem?_eq_getElem hj, rfl⟩
    have hle := hgreatest hfall
    rw [div_le_iff₀ (hpos _ (List.getElem_mem hi)), zero_mul] at hle
    exact sub_nonpos.1 hle
  · intro hpairs
    refine le_antisymm ?_ (hgreatest (isFall_zero hne))
    obtain ⟨hi, rfl⟩ := List.getElem?_eq_some_iff.1 ha
    obtain ⟨hj, rfl⟩ := List.getElem?_eq_some_iff.1 hb
    have hle : values[i] ≤ values[j] := by
      rcases hij.eq_or_lt with rfl | hlt
      · exact le_rfl
      · exact hpairs i j hi hj hlt
    rw [hx]
    exact div_nonpos_of_nonpos_of_nonneg (sub_nonpos.2 hle) (hpos _ (List.getElem_mem hi)).le

end

/-! ### The deepest fall -/

section

variable {α : Type} [Field α] [LinearOrder α] [FloorRing α] [InexactFunctions α]
  {values : List α} {d : Drawdown α} {v : α}

theorem largest_le_next : d.largest ≤ (d.next v).largest := by
  rcases d.next_cases v with ⟨-, heq⟩ | ⟨-, -, heq⟩ | ⟨-, -, heq⟩
  · rw [heq]
  · rw [heq]
    dsimp only
    rw [Exact.max_eq_max]
    exact le_max_left _ _
  · rw [heq]

variable [IsStrictOrderedRing α]

/-- **The largest fall so far is the greatest of all falls.** -/
theorem isGreatest_largest_next (hpos : ∀ w ∈ values ++ [v], 0 < w)
    (hpeak : IsHighest values d.peak) (h : IsGreatest {x | IsFall values x} d.largest) :
    IsGreatest {x | IsFall (values ++ [v]) x} (d.next v).largest := by
  have hpeak' := List.mem_append_left [v] hpeak.mem
  have hv : 0 < v := hpos v (List.mem_append_right _ (List.mem_singleton_self v))
  have hnonneg : 0 ≤ d.largest := h.2 (isFall_zero (List.ne_nil_of_mem hpeak.mem))
  -- a value that is not below the peak is no fall from any value seen
  have hkeep (hle : ¬ v < d.peak) : IsGreatest {x | IsFall (values ++ [v]) x} d.largest := by
    refine ⟨isFall_concat.2 (.inl h.1), fun x hx => ?_⟩
    rcases isFall_concat.1 hx with hx | ⟨w, hw, rfl⟩
    · exact h.2 hx
    · have hwv : w ≤ v := by
        rcases List.mem_append.1 hw with hw | hw
        · exact (not_lt.1 (hpeak.not_lt w hw)).trans (not_lt.1 hle)
        · exact (List.mem_singleton.1 hw).le
      have hwpos : 0 < w := hpos w hw
      exact (div_nonpos_of_nonpos_of_nonneg (sub_nonpos.2 hwv) hwpos.le).trans hnonneg
  rcases d.next_cases v with ⟨hlt, heq⟩ | ⟨-, ⟨-, hlt⟩, heq⟩ | ⟨-, hnot, heq⟩
  · rw [heq]
    exact hkeep hlt.not_gt
  · rw [heq]
    dsimp only
    rw [Exact.max_eq_max]
    constructor
    · rcases max_choice d.largest ((d.peak - v) / d.peak) with hmax | hmax
      · rw [hmax]
        exact isFall_concat.2 (.inl h.1)
      · rw [hmax]
        exact isFall_concat.2 (.inr ⟨d.peak, hpeak', rfl⟩)
    · intro x hx
      rcases isFall_concat.1 hx with hx | ⟨w, hw, rfl⟩
      · exact le_max_of_le_left (h.2 hx)
      · have hwpeak : w ≤ d.peak := by
          rcases List.mem_append.1 hw with hw | hw
          · exact not_lt.1 (hpeak.not_lt w hw)
          · exact (List.mem_singleton.1 hw).trans_le hlt.le
        exact le_max_of_le_right (fall_le_fall (hpos w hw) hv.le hwpeak)
  · rw [heq]
    refine hkeep fun hlt => hnot ⟨?_, hlt⟩
    rw [Exact.zero_eq]
    exact hpos _ hpeak'

theorem isGreatest_largest {first : α} {rest : List α} (hpos : ∀ w ∈ first :: rest, 0 < w) :
    IsGreatest {x | IsFall (first :: rest) x} (drawdown first (first :: rest)).largest := by
  suffices h : IsHighest (first :: rest) (drawdown first (first :: rest)).peak ∧
      IsGreatest {x | IsFall (first :: rest) x} (drawdown first (first :: rest)).largest from h.2
  refine drawdown_induction (P := fun seen d => IsHighest seen d.peak ∧
    IsGreatest {x | IsFall seen x} d.largest) (lt_irrefl first) ⟨?_, ?_⟩ ?_
  · exact ⟨List.mem_singleton_self first, List.forall_mem_singleton.2 (lt_irrefl first)⟩
  · dsimp only
    rw [Exact.zero_eq]
    refine ⟨isFall_zero (List.cons_ne_nil first []), ?_⟩
    rintro x ⟨i, j, a, b, -, ha, hb, rfl⟩
    obtain rfl := List.mem_singleton.1 (List.mem_of_getElem? ha)
    obtain rfl := List.mem_singleton.1 (List.mem_of_getElem? hb)
    rw [sub_self, zero_div]
  · intro seen v more d heq ⟨hpeak, hlargest⟩
    have hseen : ∀ w ∈ seen ++ [v], 0 < w := by
      intro w hw
      refine hpos w ?_
      rw [heq, List.append_cons]
      exact List.mem_append_left more hw
    exact ⟨hpeak.next fun _ _ => rfl, isGreatest_largest_next hseen hpeak hlargest⟩

/-- **The deepest fall of a series.**  Of positive values, the metrics report the greatest part that
any value loses up to the same or a later one.  It is not negative and never the whole, it is zero
if and only if the series never falls, and no further point makes it smaller. -/
theorem max_drawdown_law {points : List (ValuePoint α)} (hne : points ≠ [])
    (hpos : ∀ p ∈ points, 0 < p.value) :
    IsGreatest {x | IsFall (points.map ValuePoint.value) x} (compute points).maxDrawdown ∧
      0 ≤ (compute points).maxDrawdown ∧ (compute points).maxDrawdown < 1 ∧
      ((compute points).maxDrawdown = 0 ↔
        (points.map ValuePoint.value).IsChain (· ≤ ·)) ∧
      ∀ p, (compute points).maxDrawdown ≤ (compute (points ++ [p])).maxDrawdown := by
  obtain ⟨first, rest, rfl⟩ := List.exists_cons_of_ne_nil hne
  have hvalues : ∀ w ∈ (first :: rest).map ValuePoint.value, 0 < w := by
    intro w hw
    obtain ⟨p, hp, rfl⟩ := List.mem_map.1 hw
    exact hpos p hp
  have hgreatest : IsGreatest {x | IsFall ((first :: rest).map ValuePoint.value) x}
      (compute (first :: rest)).maxDrawdown := isGreatest_largest hvalues
  refine ⟨hgreatest, hgreatest.2 (isFall_zero (List.cons_ne_nil _ _)), ?_,
    isGreatest_zero_iff hvalues hgreatest, fun p => ?_⟩
  · obtain ⟨i, j, v, w, -, hv, hw, hx⟩ := hgreatest.1
    have hvpos := hvalues v (List.mem_of_getElem? hv)
    have hwpos := hvalues w (List.mem_of_getElem? hw)
    rw [hx, div_lt_one hvpos]
    exact sub_lt_self v hwpos
  · rw [List.cons_append, (compute_cons first rest).1, (compute_cons first (rest ++ [p])).1,
      ← List.cons_append, List.map_append, drawdown, drawdown, List.foldl_append]
    exact largest_le_next

end

/-- A fall by a quarter from the second value to the third, made good by the last one. -/
def dip : List (ValuePoint ℚ) :=
  [⟨⟨739000, by decide⟩, 100⟩, ⟨⟨739001, by decide⟩, 120⟩, ⟨⟨739002, by decide⟩, 90⟩,
    ⟨⟨739003, by decide⟩, 96⟩, ⟨⟨739004, by decide⟩, 130⟩]

/-- The fall counts from the second value, not from the first; a later one to half of the last value
is deeper. -/
theorem max_drawdown_law_dip : dip ≠ [] ∧ (∀ p ∈ dip, 0 < p.value) ∧
    (compute dip).maxDrawdown = 1 / 4 ∧
    IsGreatest {x | IsFall (dip.map ValuePoint.value) x} (compute dip).maxDrawdown ∧
    ¬ (dip.map ValuePoint.value).IsChain (· ≤ ·) ∧
    (compute (dip ++ [⟨⟨739005, by decide⟩, 65⟩])).maxDrawdown = 1 / 2 := by
  have hne : dip ≠ [] := List.cons_ne_nil _ _
  have hpos : ∀ p ∈ dip, 0 < p.value := by decide +kernel
  have hdepth : (compute dip).maxDrawdown = 1 / 4 := by decide +kernel
  obtain ⟨hgreatest, -, -, hzero, -⟩ := max_drawdown_law hne hpos
  refine ⟨hne, hpos, hdepth, hgreatest, fun hchain => ?_, by decide +kernel⟩
  rw [hzero.2 hchain] at hdepth
  norm_num at hdepth

end Metrics

end FactorPortfolio
