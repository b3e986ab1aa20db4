import FactorPortfolio.Sorting
import Mathlib.Data.List.Sort
import Mathlib.Tactic.Common

/-!
# A sorted list is in order

`sort_pairwise` takes what a test of order needs to have and no more: it holds one way only, and
to come no earlier than is transitive.  To be sorted by a key is a case of it (`sort_pairwise_key`),
and distinct keys come out in strict order (`sort_pairwise_key_lt`).  A test that is an order on the
elements of the list only may be taken for one that is an order on all (`sort_congr`), so that it is
enough that it compares the keys of those elements (`sort_pairwise_lt`).
-/

namespace FactorPortfolio.Sorting

variable {β : Type} {before : β → β → Bool}

theorem insertBack_pairwise (hasymm : ∀ a b, before a b = true → before b a = false)
    (htrans : ∀ a b c, before a b = false → before b c = false → before a c = false) (x : β)
    {l : List β} (h : l.Pairwise fun a b => before a b = false) :
    (insertBack before x l).Pairwise fun a b => before a b = false := by
  induction l with
  | nil => exact List.pairwise_singleton _ x
  | cons y rest ih =>
    obtain ⟨hy, hrest⟩ := List.pairwise_cons.1 h
    rw [insertBack]
    split
    · rename_i hxy
      refine List.pairwise_cons.2 ⟨fun z hz => ?_, ih hrest⟩
      rcases List.mem_cons.1 ((insertBack_perm before x rest).mem_iff.1 hz) with rfl | hz
      · exact hasymm z y hxy
      · exact hy z hz
    · rename_i hxy
      have hxy : before x y = false := Bool.eq_false_iff.2 hxy
      refine List.pairwise_cons.2 ⟨fun z hz => ?_, h⟩
      rcases List.mem_cons.1 hz with rfl | hz
      · exact hxy
      · exact htrans x y z hxy (hy z hz)

variable (before) in
/-- **Nothing in a sorted list comes before what stands to its left.** -/
theorem sort_pairwise (hasymm : ∀ a b, before a b = true → before b a = false)
    (htrans : ∀ a b c, before a b = false → before b c = false → before a c = false)
    (xs : List β) : (sort before xs).Pairwise fun a b => before b a = false := by
  have aux : ∀ acc : List β, acc.Pairwise (fun a b => before a b = false) →
      (xs.foldl (fun sorted x => insertBack before x sorted) acc).Pairwise
        fun a b => before a b = false := by
    induction xs with
    | nil => exact fun acc hacc => hacc
    | cons x rest ih => exact fun acc hacc => ih _ (insertBack_pairwise hasymm htrans x hacc)
  exact List.pairwise_reverse.2 (aux [] .nil)

theorem insertBack_congr {before' : β → β → Bool} {x : β} {l : List β}
    (h : ∀ y ∈ l, before x y = before' x y) : insertBack before x l = insertBack before' x l := by
  induction l with
  | nil => rfl
  | cons y rest ih =>
    obtain ⟨hy, hrest⟩ := List.forall_mem_cons.1 h
    rw [insertBack, insertBack, hy, ih hrest]

theorem sort_congr {before' : β → β → Bool} {xs : List β}
    (h : ∀ a ∈ xs, ∀ b ∈ xs, before a b = before' a b) : sort before xs = sort before' xs := by
  have aux : ∀ l : List β, (∀ a ∈ l, a ∈ xs) → ∀ acc : List β, (∀ a ∈ acc, a ∈ xs) →
      l.foldl (fun sorted x => insertBack before x sorted) acc =
        l.foldl (fun sorted x => insertBack before' x sorted) acc := by
    intro l hl
    induction l with
    | nil => exact fun acc _ => rfl
    | cons x rest ih =>
      intro acc hacc
      obtain ⟨hx, hrest⟩ := List.forall_mem_cons.1 hl
      rw [List.foldl_cons, List.foldl_cons,
        insertBack_congr fun y hy => h x hx y (hacc y hy)]
      refine ih hrest _ fun a ha => ?_
      rcases List.mem_cons.1 ((insertBack_perm before' x acc).mem_iff.1 ha) with rfl | ha
      · exact hx
      · exact hacc a ha
  exact congrArg List.reverse (aux xs (fun _ ha => ha) [] (by simp))

/-! ### Sorting by a key -/

section

variable {κ : Type} [Ord κ] [Std.TransOrd κ] (key : β → κ)

theorem sort_pairwise_key (xs : List β) :
    (sort (fun a b => compare (key a) (key b) == .lt) xs).Pairwise
      fun a b => (compare (key a) (key b)).isLE = true := by
  have hbefore : ∀ o : Ordering, (o == .lt) = false ↔ o.isGE = true := by decide
  have h := sort_pairwise (fun a b => compare (key a) (key b) == .lt)
    (fun a b hab => ?_) (fun a b c hab hbc => ?_) xs
  · exact h.imp fun {a b} hab => Std.OrientedCmp.isLE_of_isGE ((hbefore _).1 hab)
  · rw [beq_iff_eq] at hab
    rw [Std.OrientedCmp.gt_of_lt hab]
    rfl
  · exact (hbefore _).2 (Std.TransCmp.isGE_trans ((hbefore _).1 hab) ((hbefore _).1 hbc))

theorem sort_pairwise_key_lt [Std.LawfulEqOrd κ] {xs : List β}
    (h : xs.Pairwise fun a b => key a ≠ key b) :
    (sort (fun a b => compare (key a) (key b) == .lt) xs).Pairwise
      fun a b => compare (key a) (key b) = .lt := by
  have hdistinct := ((sort_perm (fun a b => compare (key a) (key b) == .lt) xs).pairwise_iff
    fun {a b} (hab : key a ≠ key b) => hab.symm).2 h
  refine List.Pairwise.imp₂ (fun a b hle hne => ?_) (sort_pairwise_key key xs) hdistinct
  cases hc : compare (key a) (key b) with
  | lt => rfl
  | eq => exact absurd (Std.LawfulEqOrd.eq_of_compare hc) hne
  | gt => simp [hc] at hle

end

/-! ### Sorting by a key in a linear order -/

section

variable {κ : Type} [LinearOrder κ] (key : β → κ)

/-- Elements with distinct keys come out in strict order of their keys, if it is the keys that the
test compares of them. -/
theorem sort_pairwise_lt {xs : List β}
    (h : ∀ a ∈ xs, ∀ b ∈ xs, (before a b = true ↔ key a < key b))
    (hne : xs.Pairwise fun a b => key a ≠ key b) :
    (sort before xs).Pairwise fun a b => key a < key b := by
  have hsort : sort before xs = sort (fun a b => decide (key a < key b)) xs := by
    refine sort_congr fun a ha b hb => ?_
    rw [Bool.eq_iff_iff, h a ha b hb, decide_eq_true_iff]
  have hle := sort_pairwise (fun a b => decide (key a < key b))
    (fun a b hab => ?_) (fun a b c hab hbc => ?_) xs
  · rw [← hsort] at hle
    have hne := ((sort_perm before xs).pairwise_iff fun {a b} hab => hab.symm).2 hne
    exact hle.imp₂ (fun a b hab hne =>
      lt_of_le_of_ne (not_lt.1 (decide_eq_false_iff_not.1 hab)) hne) hne
  · exact decide_eq_false (decide_eq_true_iff.1 hab).not_gt
  · rw [decide_eq_false_iff_not, not_lt] at *
    exact hbc.trans hab

theorem eq_of_pairwise_lt {l l' : List β} (hperm : l.Perm l')
    (h : l.Pairwise fun a b => key a < key b) (h' : l'.Pairwise fun a b => key a < key b) :
    l = l' :=
  hperm.eq_of_pairwise (fun _ _ _ _ hab hba => absurd hba hab.not_gt) h h'

/-- A list in strict order is what sorting makes of each of its rearrangements. -/
theorem insertionSort_eq {l l' : List β} (hperm : l.Perm l')
    (h : l.Pairwise fun a b => key a < key b) :
    l'.insertionSort (fun a b => key a ≤ key b) = l := by
  have hsorted := (List.perm_insertionSort (fun a b => key a ≤ key b) l').trans hperm.symm
  have hne := (hsorted.pairwise_iff fun {a b} (hab : key a ≠ key b) => hab.symm).2
    (h.imp fun hab => hab.ne)
  have hle := List.pairwise_insertionSort (fun a b => key a ≤ key b) l'
  exact eq_of_pairwise_lt key hsorted (hle.imp₂ (fun a b => lt_of_le_of_ne) hne) h

end

end FactorPortfolio.Sorting
