import FactorPortfolio.Proofs.Except
import FactorPortfolio.Proofs.Scalar.Order
import FactorPortfolio.Proofs.Sorting
import FactorPortfolio.Proofs.Weighting.SumToOne

/-!
# Which symbols are selected

Of scores none of which is NaN the best `n` are a set of symbols each of which ranks before every
other one (`Selection`).  There is one such set, if there are `n` symbols at all
(`Selection.unique`, `selection_top`), and it decides the weights: what is not selected may change
as long as it stays behind (`Selection.top_eq`).  `selection_law` is what this says of the weights
of scores in binary64.
-/

namespace FactorPortfolio.Weighting

section

variable {α : Type} [Scalar α]

/-- The order of the ranking: the higher score first, and by symbol where scores are equal. -/
def Precedes (a b : Symbol × α) : Prop :=
  b.2 < a.2 ∨ (b.2 == a.2) = true ∧ compare a.1 b.1 = .lt

instance (a b : Symbol × α) : Decidable (Precedes a b) :=
  inferInstanceAs (Decidable (_ ∨ _ ∧ _))

def IsNumeric (scores : Table Symbol α) : Prop :=
  ∀ e ∈ scores.entries, Scalar.isNaN e.2 = false

/-- Some `n` scored symbols that rank before all others. -/
structure Selection (scores : Table Symbol α) (n : ℕ) (symbols : Finset Symbol) : Prop where
  scored : ∀ s ∈ symbols, scores.contains s = true
  count : symbols.card = n
  best : ∀ e ∈ scores.entries, ∀ e' ∈ scores.entries, e.1 ∈ symbols → e'.1 ∉ symbols →
    Precedes e e'

theorem keys_distribute (policy : WeightingPolicy α) {selected : List (Symbol × α)}
    (h : (selected.map Prod.fst).Nodup) :
    (distribute policy selected).keys.Perm (selected.map Prod.fst) := by
  obtain ⟨parts, heq, hsymbols⟩ : ∃ parts, distribute policy selected = Table.ofList parts ∧
      parts.map Prod.fst = selected.map Prod.fst := by
    rw [distribute.eq_def]
    split
    · exact ⟨_, rfl, rfl⟩
    · exact ⟨_, rfl, by rw [List.map_map]; rfl⟩
    · rw [tiltedWeights]
      split
      · exact ⟨_, rfl, by rw [List.map_map]; rfl⟩
      · exact ⟨_, rfl, by rw [List.map_map, zScores, List.map_map]; rfl⟩
  rw [heq, ← hsymbols]
  exact (Table.entries_ofList_perm (hsymbols ▸ h)).map Prod.fst

theorem weights_of_lt (policy : WeightingPolicy α) {scores : Table Symbol α} {n : ℕ}
    (h : scores.size < n) :
    policy.weights scores n = .error (.notEnoughScores n scores.size) := by
  have hlength : (top scores n).length = scores.size := by
    rw [length_top]
    exact min_eq_right h.le
  rw [WeightingPolicy.weights]
  dsimp only
  rw [hlength, if_neg h.ne]

theorem weights_of_le (policy : WeightingPolicy α) {scores : Table Symbol α} {n : ℕ}
    (h : n ≤ scores.size) : policy.weights scores n =
      match fault? (distribute policy (top scores n)) with
      | some fault => .error (.invalidWeights fault)
      | none => .ok (distribute policy (top scores n)) := by
  rw [WeightingPolicy.weights]
  exact if_pos ((length_top scores n).trans (min_eq_left h))

theorem distribute_of_weights {policy : WeightingPolicy α} {scores weights : Table Symbol α} {n : ℕ}
    (h : policy.weights scores n = .ok weights) :
    n ≤ scores.size ∧ distribute policy (top scores n) = weights := by
  have hle : n ≤ scores.size := by
    by_contra hlt
    rw [weights_of_lt policy (not_le.1 hlt)] at h
    cases h
  rw [weights_of_le policy hle] at h
  split at h
  · cases h
  · exact ⟨hle, Except.ok.inj h⟩

/-! ### The ranking -/

variable [NumericOrder α]

theorem ranksBefore_iff {a b : Symbol × α} (ha : Scalar.isNaN a.2 = false)
    (hb : Scalar.isNaN b.2 = false) : ranksBefore a b = true ↔ Precedes a b := by
  rw [ranksBefore, beq_iff_eq, Scalar.order_then_eq_lt_iff hb ha]
  rfl

variable (α) in
/-- Scores that are numbers rank by a key, and the key tells symbols apart. -/
theorem exists_key : ∃ (κ : Type) (_ : LinearOrder κ) (key : Symbol × α → κ),
    (∀ a b, key a = key b → a.1 = b.1) ∧ ∀ a b, Scalar.isNaN a.2 = false →
      Scalar.isNaN b.2 = false → (Precedes a b ↔ key a < key b) := by
  obtain ⟨κ, _, place, hplace⟩ := NumericOrder.exists_place (α := α)
  refine ⟨κᵒᵈ ×ₗ Symbol, inferInstance, fun e => toLex (OrderDual.toDual (place e.2), e.1), ?_, ?_⟩
  · intro a b h
    exact (Prod.ext_iff.1 (toLex.injective h)).2
  · intro a b ha hb
    obtain ⟨hlt, heq⟩ := hplace b.2 a.2 hb ha
    rw [Prod.Lex.toLex_lt_toLex, Precedes, hlt, heq, OrderDual.toDual_lt_toDual,
      OrderDual.toDual_inj, eq_comm (a := place a.2)]
    exact or_congr_right (and_congr_right fun _ => compareOfLessAndEq_eq_lt)

/-- **Every symbol precedes those after it in the ranking.** -/
theorem rank_pairwise {scores : Table Symbol α} (h : IsNumeric scores) :
    (rank scores).Pairwise Precedes := by
  obtain ⟨κ, _, key, hinj, hkey⟩ := exists_key α
  have hperm := Sorting.sort_perm ranksBefore scores.entries
  have hne : scores.entries.Pairwise fun a b => key a ≠ key b :=
    (List.pairwise_map.1 scores.nodup_keys).imp fun hab heq => hab (hinj _ _ heq)
  have hsorted : (rank scores).Pairwise fun a b => key a < key b := by
    refine Sorting.sort_pairwise_lt key (fun a ha b hb => ?_) hne
    rw [ranksBefore_iff (h a ha) (h b hb), hkey a b (h a ha) (h b hb)]
  refine hsorted.imp_of_mem fun {a b} ha hb hab => ?_
  rwa [hkey a b (h a (hperm.mem_iff.1 ha)) (h b (hperm.mem_iff.1 hb))]

theorem Precedes.asymm {a b : Symbol × α} (ha : Scalar.isNaN a.2 = false)
    (hb : Scalar.isNaN b.2 = false) (h : Precedes a b) : ¬ Precedes b a := by
  obtain ⟨κ, _, key, -, hkey⟩ := exists_key α
  rw [hkey a b ha hb] at h
  rw [hkey b a hb ha]
  exact h.not_gt

/-! ### The selection -/

variable {scores : Table Symbol α} {n : ℕ}

omit [NumericOrder α] in
theorem mem_entries_of_mem_top {e : Symbol × α} (h : e ∈ top scores n) : e ∈ scores.entries :=
  (Sorting.sort_perm ranksBefore scores.entries).mem_iff.1 (List.mem_of_mem_take h)

omit [NumericOrder α] in
theorem mem_keys_of_weights {policy : WeightingPolicy α} {weights : Table Symbol α}
    (h : policy.weights scores n = .ok weights) {s : Symbol} (hs : s ∈ weights.keys) :
    s ∈ scores.keys := by
  obtain ⟨_, rfl⟩ := distribute_of_weights h
  rw [(keys_distribute policy (nodup_top scores n)).mem_iff] at hs
  obtain ⟨e, he, rfl⟩ := List.mem_map.1 hs
  exact List.mem_map_of_mem (mem_entries_of_mem_top he)

omit [NumericOrder α] in
theorem mem_top_of_symbol_mem {e : Symbol × α} (he : e ∈ scores.entries)
    (h : e.1 ∈ (top scores n).map Prod.fst) : e ∈ top scores n := by
  obtain ⟨e', he', hsymbol⟩ := List.mem_map.1 h
  rwa [← List.inj_on_of_nodup_map scores.nodup_keys (mem_entries_of_mem_top he') he hsymbol]

/-- **The best symbols are a selection.** -/
theorem selection_top (h : IsNumeric scores) (hn : n ≤ scores.size) :
    Selection scores n ((top scores n).map Prod.fst).toFinset where
  scored s hs := by
    obtain ⟨e, he, rfl⟩ := List.mem_map.1 (List.mem_toFinset.1 hs)
    exact Table.contains_iff_exists.2 ⟨e.2, mem_entries_of_mem_top he⟩
  count := by
    rw [List.toFinset_card_of_nodup (nodup_top scores n), List.length_map, length_top]
    exact min_eq_left hn
  best e he e' he' hs hs' := by
    rw [List.mem_toFinset] at hs hs'
    have hsplit : top scores n ++ (rank scores).drop n = rank scores := List.take_append_drop n _
    have hranked : e' ∈ rank scores :=
      (Sorting.sort_perm ranksBefore scores.entries).mem_iff.2 he'
    have hpairs := rank_pairwise h
    rw [← hsplit, List.mem_append] at hranked
    rw [← hsplit, List.pairwise_append] at hpairs
    have hbehind : e' ∈ (rank scores).drop n :=
      hranked.resolve_left fun htop => hs' (List.mem_map_of_mem htop)
    exact hpairs.2.2 e (mem_top_of_symbol_mem he hs) e' hbehind

omit [NumericOrder α] in
theorem Selection.le_size {symbols : Finset Symbol} (h : Selection scores n symbols) :
    n ≤ scores.size := by
  have hsub : symbols ⊆ scores.keys.toFinset := by
    intro s hs
    rw [List.mem_toFinset, Table.mem_keys_iff]
    exact h.scored s hs
  calc n = symbols.card := h.count.symm
    _ ≤ scores.keys.toFinset.card := Finset.card_le_card hsub
    _ ≤ scores.keys.length := List.toFinset_card_le _
    _ = scores.size := List.length_map ..

/-- **There is one selection only.**  Of two, each would have a symbol that the other lacks, and
each of these two symbols would precede the other. -/
theorem Selection.unique (h : IsNumeric scores) {symbols symbols' : Finset Symbol}
    (hs : Selection scores n symbols) (hs' : Selection scores n symbols') : symbols = symbols' := by
  by_contra hne
  have hleft : ¬ symbols ⊆ symbols' := fun hsub =>
    hne (Finset.eq_of_subset_of_card_le hsub (hs'.count.trans hs.count.symm).le)
  have hright : ¬ symbols' ⊆ symbols := fun hsub =>
    hne (Finset.eq_of_subset_of_card_le hsub (hs.count.trans hs'.count.symm).le).symm
  obtain ⟨s, hmem, hout⟩ := Finset.not_subset.1 hleft
  obtain ⟨s', hmem', hout'⟩ := Finset.not_subset.1 hright
  obtain ⟨x, hx⟩ := Table.contains_iff_exists.1 (hs.scored s hmem)
  obtain ⟨x', hx'⟩ := Table.contains_iff_exists.1 (hs'.scored s' hmem')
  exact (hs.best _ hx _ hx' hmem hout').asymm (h _ hx) (h _ hx') (hs'.best _ hx' _ hx hmem' hout)

theorem Selection.eq_top (h : IsNumeric scores) {symbols : Finset Symbol}
    (hs : Selection scores n symbols) : symbols = ((top scores n).map Prod.fst).toFinset :=
  hs.unique h (selection_top h hs.le_size)

theorem Selection.mem_top_iff (h : IsNumeric scores) {symbols : Finset Symbol}
    (hs : Selection scores n symbols) {e : Symbol × α} :
    e ∈ top scores n ↔ e ∈ scores.entries ∧ e.1 ∈ symbols := by
  rw [hs.eq_top h, List.mem_toFinset]
  exact ⟨fun he => ⟨mem_entries_of_mem_top he, List.mem_map_of_mem he⟩,
    fun he => mem_top_of_symbol_mem he.1 he.2⟩

theorem selection_of_weights (h : IsNumeric scores) {policy : WeightingPolicy α}
    {weights : Table Symbol α} (hweights : policy.weights scores n = .ok weights) :
    Selection scores n weights.keys.toFinset := by
  obtain ⟨hle, rfl⟩ := distribute_of_weights hweights
  rw [List.toFinset_eq_of_perm _ _ (keys_distribute policy (nodup_top scores n))]
  exact selection_top h hle

/-- **What is not selected does not matter**, as long as it stays behind what is. -/
theorem Selection.top_eq (h : IsNumeric scores) {symbols : Finset Symbol}
    (hs : Selection scores n symbols) {scores' : Table Symbol α} (h' : IsNumeric scores')
    (hsame : ∀ s ∈ symbols, scores'.get? s = scores.get? s)
    (hbehind : ∀ e ∈ scores.entries, e.1 ∈ symbols → ∀ e' ∈ scores'.entries, e'.1 ∉ symbols →
      Precedes e e') : top scores' n = top scores n := by
  have hentry : ∀ e : Symbol × α, e.1 ∈ symbols → (e ∈ scores'.entries ↔ e ∈ scores.entries) := by
    rintro ⟨s, x⟩ hmem
    rw [← Table.get?_eq_some_iff, hsame s hmem, Table.get?_eq_some_iff]
  have hs' : Selection scores' n symbols := by
    refine ⟨fun s hmem => ?_, hs.count, fun e he e' he' hmem => ?_⟩
    · rw [Table.contains, hsame s hmem]
      exact hs.scored s hmem
    · exact hbehind e ((hentry e hmem).1 he) hmem e' he'
  have hmem : ∀ e, e ∈ top scores' n ↔ e ∈ top scores n := by
    intro e
    rw [hs.mem_top_iff h, hs'.mem_top_iff h']
    exact and_congr_left (hentry e)
  have hperm := (List.perm_ext_iff_of_nodup (.of_map _ (nodup_top scores' n))
    (.of_map _ (nodup_top scores n))).2 hmem
  -- both stand in the order of the ranking
  refine hperm.eq_of_pairwise (fun a b ha hb hab hba => ?_)
    ((rank_pairwise h').sublist (List.take_sublist n _))
    ((rank_pairwise h).sublist (List.take_sublist n _))
  have hnumeric := fun e he => h e (mem_entries_of_mem_top (n := n) he)
  exact absurd hba (hab.asymm (hnumeric a ((hmem a).1 ha)) (hnumeric b hb))

end

/-! ### Weights in binary64 -/

/-- **The law of selection.**  There are not enough scores if there are fewer than asked for, and
only then.  Otherwise there is one selection; if there are weights they are those of its symbols,
and whether there are and which does not depend on the scores of other symbols, how many these are,
or that they are there, while they stay behind the selected ones. -/
theorem selection_law {scores : Table Symbol Float} (h : IsNumeric scores) (n : ℕ)
    (policy : WeightingPolicy Float) :
    ((∃ expected found, policy.weights scores n = .error (.notEnoughScores expected found)) ↔
      scores.size < n) ∧
    (n ≤ scores.size → ∃! symbols, Selection scores n symbols) ∧
    (∀ weights, policy.weights scores n = .ok weights →
      Selection scores n weights.keys.toFinset) ∧
    ∀ symbols, Selection scores n symbols → ∀ scores' : Table Symbol Float, IsNumeric scores' →
      (∀ s ∈ symbols, scores'.get? s = scores.get? s) →
      (∀ e ∈ scores.entries, e.1 ∈ symbols → ∀ e' ∈ scores'.entries, e'.1 ∉ symbols →
        Precedes e e') →
      policy.weights scores' n = policy.weights scores n := by
  refine ⟨⟨?_, fun hlt => ⟨_, _, weights_of_lt policy hlt⟩⟩, fun hle => ?_, ?_, ?_⟩
  · rintro ⟨expected, found, hfew⟩
    by_contra hle
    rw [weights_of_le policy (not_lt.1 hle)] at hfew
    split at hfew <;> cases hfew
  · exact ⟨_, selection_top h hle, fun symbols hs => hs.eq_top h⟩
  · exact fun weights hweights => selection_of_weights h hweights
  · intro symbols hs scores' h' hsame hbehind
    rw [WeightingPolicy.weights, WeightingPolicy.weights, hs.top_eq h h' hsame hbehind]

/-- Three scores of 2, for two places. -/
def tiedScores : Table Symbol Float :=
  Table.ofList [("AAPL", 1.0), ("AMZN", 2.0), ("GOOG", 2.0), ("MSFT", 2.0)]

def tiedBehind : Table Symbol Float :=
  Table.ofList [("AAPL", -(1.0 / 0.0)), ("AMZN", 2.0), ("GOOG", 2.0), ("MSFT", 1.5), ("TSLA", 2.0)]

/-- Of the three with the same score the last symbol loses its place, and the other two have the
weights. -/
theorem selection_law_tiedScores :
    IsNumeric tiedScores ∧ IsNumeric tiedBehind ∧
    Selection tiedScores 2 {"AMZN", "GOOG"} ∧
    (∀ symbols, Selection tiedScores 2 symbols → symbols = {"AMZN", "GOOG"}) ∧
    (∃ weights, WeightingPolicy.equal.weights tiedScores 2 = .ok weights ∧
      weights.keys = ["AMZN", "GOOG"] ∧ Selection tiedScores 2 weights.keys.toFinset) ∧
    ∀ policy : WeightingPolicy Float,
      policy.weights tiedBehind 2 = policy.weights tiedScores 2 := by
  have hnumeric : IsNumeric tiedScores := by
    unfold IsNumeric
    decide +kernel
  have hnumeric' : IsNumeric tiedBehind := by
    unfold IsNumeric
    decide +kernel
  have hselection : Selection tiedScores 2 {"AMZN", "GOOG"} :=
    ⟨by decide +kernel, by decide +kernel, by decide +kernel⟩
  have hweights : (WeightingPolicy.equal.weights tiedScores 2).toOption.any
      (fun weights => decide (weights.keys = ["AMZN", "GOOG"])) = true := by
    decide +kernel
  obtain ⟨weights, hweights, hkeys⟩ := Except.exists_of_toOption_any hweights
  obtain ⟨-, hone, hselected, -⟩ := selection_law hnumeric 2 .equal
  refine ⟨hnumeric, hnumeric', hselection, fun symbols hs => ?_,
    ⟨weights, hweights, of_decide_eq_true hkeys, hselected weights hweights⟩, fun policy => ?_⟩
  · exact (hone (by decide +kernel)).unique hs hselection
  · obtain ⟨-, -, -, hstable⟩ := selection_law hnumeric 2 policy
    exact hstable _ hselection _ hnumeric' (by decide +kernel) (by decide +kernel)

end FactorPortfolio.Weighting
