import FactorPortfolio.Calendar.Date
import FactorPortfolio.Proofs.Calendar.Order
import Mathlib.Tactic.Common

/-!
# Halving finds what is there

In ascending dates a date lies in the half that the search goes on with, if it is there at all
(`mem_drop_iff`, `mem_take_iff`).  So the search tells membership: `isIn_iff_mem`.
-/

namespace FactorPortfolio.Date

variable {days : List Date}

theorem lt_of_getElem? (h : days.Pairwise (· < ·)) {i j : Nat} {a b : Date} (ha : days[i]? = some a)
    (hb : days[j]? = some b) (hij : i < j) : a < b := by
  obtain ⟨hi, rfl⟩ := List.getElem?_eq_some_iff.1 ha
  obtain ⟨hj, rfl⟩ := List.getElem?_eq_some_iff.1 hb
  exact List.pairwise_iff_getElem.1 h i j hi hj hij

theorem mem_drop_iff (h : days.Pairwise (· < ·)) {n : Nat} {d x : Date} (hx : days[n]? = some x)
    (hle : x ≤ d) : d ∈ days.drop n ↔ d ∈ days := by
  constructor
  · exact List.mem_of_mem_drop
  · intro hd
    obtain ⟨i, hi⟩ := List.mem_iff_getElem?.1 hd
    have hni : n ≤ i := by
      by_contra hlt
      exact not_lt.2 hle (lt_of_getElem? h hi hx (by omega))
    refine List.mem_iff_getElem?.2 ⟨i - n, ?_⟩
    rw [List.getElem?_drop, Nat.add_sub_cancel' hni, hi]

theorem mem_take_iff (h : days.Pairwise (· < ·)) {n k : Nat} {d x : Date} (hx : days[n]? = some x)
    (hlt : d < x) (hnk : n ≤ k) : d ∈ days.take k ↔ d ∈ days := by
  constructor
  · exact List.mem_of_mem_take
  · intro hd
    obtain ⟨i, hi⟩ := List.mem_iff_getElem?.1 hd
    have hik : i < k := by
      by_contra hle
      rcases Nat.lt_or_eq_of_le (show n ≤ i by omega) with hni | rfl
      · exact not_lt.2 (le_of_lt hlt) (lt_of_getElem? h hx hi hni)
      · rw [hi] at hx
        exact lt_irrefl d (Option.some.inj hx ▸ hlt)
    exact List.mem_iff_getElem?.2 ⟨i, by rw [List.getElem?_take_of_lt hik, hi]⟩

/-- **Halving finds a date in ascending dates if and only if it is there.** -/
theorem isIn_iff_mem {d : Date} (h : days.Pairwise (· < ·)) : d.isIn days = true ↔ d ∈ days := by
  fun_induction isIn d days with
  | case1 => simp
  | case2 e => rw [beq_iff_eq, List.mem_singleton, eq_comm]
  | case3 e e' rest half hle ih =>
    have hhalf : half < (e :: e' :: rest).length := by
      simp only [half, List.length_cons]
      omega
    have hx := List.getElem?_eq_getElem hhalf
    rw [hx, Option.getD_some] at hle
    rw [ih (h.drop), mem_drop_iff h hx hle]
  | case4 e e' rest half hgt ih =>
    have hhalf : half < (e :: e' :: rest).length := by
      simp only [half, List.length_cons]
      omega
    have hx := List.getElem?_eq_getElem hhalf
    rw [hx, Option.getD_some] at hgt
    rw [ih (h.take), mem_take_iff h hx (not_le.1 hgt) (by simp only [half]; omega)]

end FactorPortfolio.Date
