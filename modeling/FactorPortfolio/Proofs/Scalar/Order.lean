import FactorPortfolio.Proofs.Scalar.Exact
import FactorPortfolio.Proofs.Scalar.Value

/-!
# Numbers stand in a line

All that a ranking needs of numbers is that they compare as the elements of a linear order do, where
they are numbers at all (`NumericOrder`).  An ordered field is such an order itself.  In binary64
the finite numbers compare as their values, zeros of either sign as one, and the infinities stand at
the two ends (`Binary64.compare_place`).
-/

namespace FactorPortfolio

/-- Numbers compare as their places in a linear order; of NaN nothing is said. -/
class NumericOrder (α : Type) [Scalar α] : Prop where
  exists_place : ∃ (κ : Type) (_ : LinearOrder κ) (place : α → κ), ∀ x y : α,
    Scalar.isNaN x = false → Scalar.isNaN y = false →
      (x < y ↔ place x < place y) ∧ ((x == y) = true ↔ place x = place y)

instance {α : Type} [Field α] [LinearOrder α] [FloorRing α] [InexactFunctions α] :
    NumericOrder α where
  exists_place := ⟨α, inferInstance, id, fun _ _ _ _ => ⟨Iff.rfl, beq_iff_eq⟩⟩

/-- Numbers that compare as equal leave the decision to a second comparison. -/
theorem Scalar.order_then_eq_lt_iff {α : Type} [Scalar α] [NumericOrder α] {x y : α}
    (hx : isNaN x = false) (hy : isNaN y = false) {o : Ordering} :
    (order x y).then o = .lt ↔ x < y ∨ (x == y) = true ∧ o = .lt := by
  obtain ⟨κ, _, place, hplace⟩ := NumericOrder.exists_place (α := α)
  obtain ⟨hlt, heq⟩ := hplace x y hx hy
  obtain ⟨hgt, -⟩ := hplace y x hy hx
  rw [order]
  rcases lt_trichotomy (place x) (place y) with h | h | h
  · simp [hlt, h]
  · simp [hlt, hgt, heq, h]
  · simp [hlt, hgt, heq, h, h.not_gt, h.ne']

namespace Binary64

open Float.Model Float.Model.UnpackedFloat

/-- Where a number stands between the two infinities. -/
def place (x : Float) : WithBot (WithTop ℚ) :=
  match value? x with
  | some a => ((a : WithTop ℚ) : WithBot (WithTop ℚ))
  | none => if x < 0.0 then ⊥ else ((⊤ : WithTop ℚ) : WithBot (WithTop ℚ))

theorem place_of_value {x : Float} {a : ℚ} (h : value? x = some a) :
    place x = ((a : WithTop ℚ) : WithBot (WithTop ℚ)) := by
  rw [place, h]

theorem lt_iff_unpack {x y : Float} :
    x < y ↔ x.toModel.unpack.lt y.toModel.unpack = true := decide_eq_true_iff

theorem isNaN_of_lt {x y : Float} (h : x < y) : y.isNaN = false := by
  show y.toModel.unpack.isNaN = false
  rw [lt_iff_unpack, UnpackedFloat.lt] at h
  cases hy : y.toModel.unpack with
  | zero s => rfl
  | finite s m e hm => rfl
  | infinity s => rfl
  | notANumber =>
    rw [hy] at h
    cases hx : x.toModel.unpack <;> rw [hx] at h <;> cases h

theorem place_negative {x : Float} (h : x.toModel.unpack = .infinity .negative) :
    place x = ⊥ := by
  have hlt : x < 0.0 := by
    rw [lt_iff_unpack, h]
    rfl
  rw [place, value?, h]
  exact if_pos hlt

theorem place_positive {x : Float} (h : x.toModel.unpack = .infinity .positive) :
    place x = ((⊤ : WithTop ℚ) : WithBot (WithTop ℚ)) := by
  have hlt : ¬ x < 0.0 := by
    rw [lt_iff_unpack, h]
    exact Bool.false_ne_true
  rw [place, value?, h]
  exact if_neg hlt

theorem value_or_infinity {x : Float} (h : x.isNaN = false) :
    (∃ a, value? x = some a) ∨ x.toModel.unpack = .infinity .negative ∨
      x.toModel.unpack = .infinity .positive := by
  change x.toModel.unpack.isNaN = false at h
  rw [value?]
  cases hx : x.toModel.unpack with
  | zero s => exact .inl ⟨_, rfl⟩
  | finite s m e hm => exact .inl ⟨_, rfl⟩
  | infinity s => cases s <;> simp
  | notANumber => rw [hx] at h; cases h

theorem compare_infinity {x : Float} {a : ℚ} (h : value? x = some a) :
    x.toModel.unpack.compare (.infinity .negative) = some .gt ∧
      x.toModel.unpack.compare (.infinity .positive) = some .lt ∧
      UnpackedFloat.compare (.infinity .negative) x.toModel.unpack = some .lt ∧
      UnpackedFloat.compare (.infinity .positive) x.toModel.unpack = some .gt := by
  rcases value?_eq_some_iff.1 h with ⟨⟨s, hx⟩, -⟩ | ⟨s, m, e, hm, hx, -⟩ <;> rw [hx] <;>
    exact ⟨rfl, rfl, rfl, rfl⟩

/-- **Numbers compare as their places do**, infinities included. -/
theorem compare_place {x y : Float} (hx : x.isNaN = false) (hy : y.isNaN = false) :
    x.toModel.unpack.compare y.toModel.unpack = some (compare (place x) (place y)) := by
  rcases value_or_infinity hx with ⟨a, ha⟩ | hx | hx <;>
    rcases value_or_infinity hy with ⟨b, hb⟩ | hy | hy
  · rw [compare_of_value ha hb, place_of_value ha, place_of_value hb]
    rcases lt_trichotomy a b with h | rfl | h
    · rw [compare_lt_iff_lt.2 h, compare_lt_iff_lt.2 (by simpa using h)]
    · rw [compare_eq_iff_eq.2 rfl, compare_eq_iff_eq.2 rfl]
    · rw [compare_gt_iff_gt.2 h, compare_gt_iff_gt.2 (by simpa using h)]
  · rw [hy, (compare_infinity ha).1, place_of_value ha, place_negative hy,
      compare_gt_iff_gt.2 (WithBot.bot_lt_coe _)]
  · rw [hy, (compare_infinity ha).2.1, place_of_value ha, place_positive hy,
      compare_lt_iff_lt.2 (WithBot.coe_lt_coe.2 (WithTop.coe_lt_top a))]
  · rw [hx, (compare_infinity hb).2.2.1, place_of_value hb, place_negative hx,
      compare_lt_iff_lt.2 (WithBot.bot_lt_coe _)]
  · rw [hx, hy, place_negative hx, place_negative hy, compare_eq_iff_eq.2 rfl]
    rfl
  · rw [hx, hy, place_negative hx, place_positive hy, compare_lt_iff_lt.2 (WithBot.bot_lt_coe _)]
    rfl
  · rw [hx, (compare_infinity hb).2.2.2, place_of_value hb, place_positive hx,
      compare_gt_iff_gt.2 (WithBot.coe_lt_coe.2 (WithTop.coe_lt_top b))]
  · rw [hx, hy, place_positive hx, place_negative hy, compare_gt_iff_gt.2 (WithBot.bot_lt_coe _)]
    rfl
  · rw [hx, hy, place_positive hx, place_positive hy, compare_eq_iff_eq.2 rfl]
    rfl

instance : NumericOrder Float where
  exists_place := by
    refine ⟨_, inferInstance, place, fun x y hx hy => ⟨?_, ?_⟩⟩
    · rw [lt_iff_unpack, UnpackedFloat.lt, compare_place hx hy, beq_iff_eq, Option.some.injEq,
        compare_lt_iff_lt]
    · show x.toModel.unpack.beq y.toModel.unpack = true ↔ _
      rw [UnpackedFloat.beq, compare_place hx hy, beq_iff_eq, Option.some.injEq,
        compare_eq_iff_eq]

end Binary64

end FactorPortfolio
