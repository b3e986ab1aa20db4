/-! # Stable sorting

Elements are taken from left to right and each is moved back over those already sorted as long as
it comes strictly before its neighbour. Elements that do not come before one another keep their
order, and for any test `before`, transitive or not, the result is a rearrangement.
-/

namespace FactorPortfolio.Sorting

variable {β : Type}

/-- Puts an element into a sorted list that is given from its end. -/
def insertBack (before : β → β → Bool) (x : β) : List β → List β
  | [] => [x]
  | y :: rest => if before x y then y :: insertBack before x rest else x :: y :: rest

/-- Sorts a list so that no element comes before its left neighbour. -/
def sort (before : β → β → Bool) (xs : List β) : List β :=
  (xs.foldl (fun sorted x => insertBack before x sorted) []).reverse

theorem insertBack_perm (before : β → β → Bool) (x : β) (l : List β) :
    (insertBack before x l).Perm (x :: l) := by
  induction l with
  | nil => exact .refl _
  | cons y rest ih =>
    rw [insertBack]
    split
    · exact (ih.cons y).trans (.swap x y rest)
    · exact .refl _

theorem sort_perm (before : β → β → Bool) (xs : List β) : (sort before xs).Perm xs := by
  have aux : ∀ acc : List β,
      (xs.foldl (fun sorted x => insertBack before x sorted) acc).Perm (xs ++ acc) := by
    induction xs with
    | nil => exact fun acc => .refl _
    | cons x rest ih =>
      intro acc
      exact (ih _).trans (((insertBack_perm before x acc).append_left rest).trans
        (List.perm_middle.trans (.refl _)))
  have h := aux []
  rw [List.append_nil] at h
  exact (List.reverse_perm _).trans h

end FactorPortfolio.Sorting
