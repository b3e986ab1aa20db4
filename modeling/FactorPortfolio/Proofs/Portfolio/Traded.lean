import Mathlib.Tactic.NormNum
import FactorPortfolio.Proofs.Except
import FactorPortfolio.Proofs.Scalar.Exact
import FactorPortfolio.Proofs.Table
import FactorPortfolio.Trades

/-!
# Trades between two portfolios

The trades from one portfolio to another are in order of their symbols, one for each symbol whose
quantity changes (`diff_pairwise`, `mem_diff_iff`).  `Portfolio.tradeAll` carries trades out; of
distinct symbols each changes what is held of its own symbol only (`quantity_tradeAll_of_mem`,
`quantity_tradeAll_of_not_mem`).
-/

namespace FactorPortfolio

section

variable {α : Type} [Scalar α]

namespace Portfolio

def trade (p : Portfolio α) (t : Trade α) : Portfolio α :=
  p.setQuantity t.symbol (p.quantity t.symbol + t.quantity)

def tradeAll (p : Portfolio α) (trades : List (Trade α)) : Portfolio α := trades.foldl trade p

end Portfolio

namespace Trade

variable {current target : Portfolio α} {prices : Table Symbol α}

theorem symbol_of_change? {s : Symbol} {t : Trade α}
    (h : change? current target prices s = .ok (some t)) : t.symbol = s := by
  unfold change? at h
  dsimp only at h
  split at h
  · cases h
  · split at h
    · cases h
      rfl
    · cases h

theorem symbols_sublist {symbols : List Symbol} {changes : List (Option (Trade α))}
    (h : List.Forall₂ (fun s change => change? current target prices s = .ok change)
      symbols changes) : ((changes.filterMap id).map symbol).Sublist symbols := by
  induction h with
  | nil => exact .slnil
  | @cons s change _ _ hchange _ ih =>
    cases change with
    | none => exact ih.cons s
    | some t =>
      rw [← symbol_of_change? hchange]
      exact ih.cons_cons t.symbol

theorem diff_eq_ok_iff {trades : List (Trade α)} :
    diff current target prices = .ok trades ↔ ∃ changes,
      (KeySet.ofList (current.positions.keys ++ target.positions.keys)).keys.mapM
        (change? current target prices) = .ok changes ∧ changes.filterMap id = trades := by
  rw [diff]
  cases List.mapM (change? current target prices)
      (KeySet.ofList (current.positions.keys ++ target.positions.keys)).keys <;>
    simp [Except.map]

theorem exists_diff_of_priced
    (h : ∀ s, s ∈ current.positions.keys ∨ s ∈ target.positions.keys →
      ∃ price, prices.get? s = some price) :
    ∃ trades, diff current target prices = .ok trades := by
  have hchange : ∀ s ∈ (KeySet.ofList (current.positions.keys ++ target.positions.keys)).keys,
      ∃ change, change? current target prices s = .ok change := by
    intro s hs
    rw [Table.mem_keys_iff, KeySet.contains_ofList, List.mem_append] at hs
    obtain ⟨price, hprice⟩ := h s hs
    rw [change?, hprice]
    dsimp only
    split
    · exact ⟨_, rfl⟩
    · exact ⟨_, rfl⟩
  obtain ⟨changes, hchanges⟩ := Except.exists_mapM_eq_ok hchange
  exact ⟨_, diff_eq_ok_iff.2 ⟨changes, hchanges, rfl⟩⟩

/-- **The trades are in order of their symbols.** -/
theorem diff_pairwise {trades : List (Trade α)} (h : diff current target prices = .ok trades) :
    trades.Pairwise fun a b => compare a.symbol b.symbol = .lt := by
  obtain ⟨changes, hchanges, rfl⟩ := diff_eq_ok_iff.1 h
  have hsub := symbols_sublist (Except.forall₂_of_mapM_eq_ok hchanges)
  exact List.pairwise_map.1 ((Table.keys_pairwise _).sublist hsub)

theorem nodup_symbols_diff {trades : List (Trade α)} (h : diff current target prices = .ok trades) :
    (trades.map symbol).Nodup := Table.nodup_of_ascending (diff_pairwise h)

end Trade

end

variable {α : Type} [Field α] [LinearOrder α] [FloorRing α] [InexactFunctions α]

namespace Trade

variable {current target : Portfolio α} {prices : Table Symbol α}

theorem change?_eq_ok_some_iff {s : Symbol} {t : Trade α} :
    change? current target prices s = .ok (some t) ↔
      t.symbol = s ∧ t.quantity = target.quantity s - current.quantity s ∧ t.quantity ≠ 0 ∧
        prices.get? s = some t.price := by
  rw [change?]
  simp only [Exact.zero_eq, beq_iff_eq]
  by_cases hdelta : target.quantity s - current.quantity s = 0
  · rw [if_pos hdelta]
    constructor
    · intro h
      cases h
    · rintro ⟨_, hquantity, hne, _⟩
      exact absurd (hquantity.trans hdelta) hne
  · rw [if_neg hdelta]
    obtain ⟨symbol, quantity, price⟩ := t
    cases prices.get? s with
    | none => simp
    | some price' =>
      simp only [Except.ok.injEq, Option.some.injEq, mk.injEq]
      constructor
      · rintro ⟨rfl, rfl, rfl⟩
        exact ⟨rfl, rfl, hdelta, rfl⟩
      · rintro ⟨rfl, rfl, _, rfl⟩
        exact ⟨rfl, rfl, rfl⟩

theorem eq_of_change?_eq_none {s : Symbol} (h : change? current target prices s = .ok none) :
    target.quantity s = current.quantity s := by
  rw [change?] at h
  simp only [Exact.zero_eq, beq_iff_eq] at h
  split at h
  · rename_i hdelta
    exact sub_eq_zero.1 hdelta
  · split at h <;> cases h

theorem quantity_eq_zero {p : Portfolio α} {s : Symbol} (h : s ∉ p.positions.keys) :
    p.quantity s = 0 := by
  rw [Table.mem_keys_iff, Table.contains, Option.isSome_iff_ne_none, not_not] at h
  rw [Portfolio.quantity, h]
  norm_num

theorem mem_symbols_of_ne {s : Symbol} (h : target.quantity s ≠ current.quantity s) :
    s ∈ (KeySet.ofList (current.positions.keys ++ target.positions.keys)).keys := by
  rw [Table.mem_keys_iff, KeySet.contains_ofList, List.mem_append]
  by_contra hmem
  rw [not_or] at hmem
  exact h ((quantity_eq_zero hmem.2).trans (quantity_eq_zero hmem.1).symm)

/-- **The trades are those of the symbols whose quantity changes**, at their prices. -/
theorem mem_diff_iff {trades : List (Trade α)} (h : diff current target prices = .ok trades)
    {t : Trade α} : t ∈ trades ↔
      t.quantity = target.quantity t.symbol - current.quantity t.symbol ∧ t.quantity ≠ 0 ∧
        prices.get? t.symbol = some t.price := by
  obtain ⟨changes, hchanges, rfl⟩ := diff_eq_ok_iff.1 h
  rw [List.mem_filterMap]
  constructor
  · rintro ⟨change, hmem, rfl⟩
    obtain ⟨s, _, hs⟩ := (Except.mem_of_mapM_eq_ok hchanges).1 hmem
    obtain rfl := symbol_of_change? hs
    exact (change?_eq_ok_some_iff.1 hs).2
  · intro ht
    have hne : target.quantity t.symbol ≠ current.quantity t.symbol := by
      intro heq
      rw [heq, sub_self] at ht
      exact ht.2.1 ht.1
    exact ⟨some t, (Except.mem_of_mapM_eq_ok hchanges).2
      ⟨t.symbol, mem_symbols_of_ne hne, change?_eq_ok_some_iff.2 ⟨rfl, ht⟩⟩, rfl⟩

theorem quantity_eq_of_not_mem_diff {trades : List (Trade α)}
    (h : diff current target prices = .ok trades) {s : Symbol} (hs : s ∉ trades.map symbol) :
    target.quantity s = current.quantity s := by
  by_contra hne
  obtain ⟨changes, hchanges, rfl⟩ := diff_eq_ok_iff.1 h
  obtain ⟨change, hchange⟩ := Except.exists_of_mapM_eq_ok hchanges (mem_symbols_of_ne hne)
  have hmem := (Except.mem_of_mapM_eq_ok hchanges).2 ⟨s, mem_symbols_of_ne hne, hchange⟩
  cases change with
  | none => exact hne (eq_of_change?_eq_none hchange)
  | some t =>
    have ht : t ∈ changes.filterMap id := List.mem_filterMap.2 ⟨some t, hmem, rfl⟩
    exact hs (List.mem_map.2 ⟨t, ht, symbol_of_change? hchange⟩)

theorem mem_symbols_diff_iff {trades : List (Trade α)} (h : diff current target prices = .ok trades)
    {s : Symbol} : s ∈ trades.map symbol ↔ target.quantity s ≠ current.quantity s := by
  refine ⟨fun hs heq => ?_, fun hne => ?_⟩
  · obtain ⟨t, ht, rfl⟩ := List.mem_map.1 hs
    obtain ⟨hquantity, hne, _⟩ := (mem_diff_iff h).1 ht
    rw [heq, sub_self] at hquantity
    exact hne hquantity
  · by_contra hs
    exact hne (quantity_eq_of_not_mem_diff h hs)

end Trade

namespace Portfolio

theorem quantity_setQuantity (p : Portfolio α) (s s' : Symbol) (q : α) :
    (p.setQuantity s q).quantity s' = if s' = s then q else p.quantity s' := by
  rw [setQuantity, quantity, quantity, Exact.zero_eq]
  by_cases hq : q = 0
  · rw [if_pos (by simpa using hq), Table.get?_erase]
    split
    · exact hq.symm
    · rfl
  · rw [if_neg (by simpa using hq)]
    by_cases hs : s' = s
    · rw [hs, Table.get?_insert_self, if_pos rfl, Option.getD_some]
    · rw [Table.get?_insert_of_ne _ hs, if_neg hs]

theorem quantity_tradeAll_of_not_mem (p : Portfolio α) {trades : List (Trade α)} {s : Symbol}
    (hs : s ∉ trades.map Trade.symbol) : (p.tradeAll trades).quantity s = p.quantity s := by
  induction trades generalizing p with
  | nil => rfl
  | cons t rest ih =>
    rw [List.map_cons, List.mem_cons, not_or] at hs
    rw [tradeAll, List.foldl_cons]
    refine (ih (p.trade t) hs.2).trans ?_
    rw [trade, quantity_setQuantity, if_neg hs.1]

theorem quantity_tradeAll_of_mem (p : Portfolio α) {trades : List (Trade α)}
    (hdistinct : (trades.map Trade.symbol).Nodup) {t : Trade α} (ht : t ∈ trades) :
    (p.tradeAll trades).quantity t.symbol = p.quantity t.symbol + t.quantity := by
  induction trades generalizing p with
  | nil => cases ht
  | cons u rest ih =>
    obtain ⟨hhead, hrest⟩ := List.nodup_cons.1 hdistinct
    rw [tradeAll, List.foldl_cons]
    rcases List.mem_cons.1 ht with rfl | ht
    · refine (quantity_tradeAll_of_not_mem (p.trade t) hhead).trans ?_
      rw [trade, quantity_setQuantity, if_pos rfl]
    · have hne : t.symbol ≠ u.symbol := fun heq => hhead (heq ▸ List.mem_map_of_mem ht)
      refine (ih (p.trade u) hrest ht).trans ?_
      rw [trade, quantity_setQuantity, if_neg hne]

end Portfolio

end FactorPortfolio
