import Mathlib.Tactic.NormNum
import FactorPortfolio.Proofs.Scalar.Exact
import FactorPortfolio.Proofs.Sorting
import FactorPortfolio.Proofs.Table
import FactorPortfolio.Trades

/-!
# What the filter keeps and what it carries

A call of the filter releases the excess of every symbol that is traded, nets the trades with it and
with one another (`adjusted`), and parts them: the large ones are kept in order of their symbols,
the small ones go into the ledger (`filterSmall_eq`).  Of distinct symbols each ends up on one side.

* `perm_symbols_adjusted`: netting neither adds nor drops a symbol.
* `get?_excess_of_mem`, `get?_excess_of_not_mem`: the ledger after a call.
* `Held`, `held_filterSmall`: what a call keeps is above the threshold and in order of its symbols;
  what it leaves in the ledger is not zero and not above the threshold.
-/

namespace FactorPortfolio

section

variable {α : Type} [Scalar α]

namespace ExcessLedger

omit [Scalar α] in
theorem get?_release (l : ExcessLedger α) (symbol symbol' : Symbol) :
    (l.release symbol).excess.get? symbol' =
      if symbol' = symbol then none else l.excess.get? symbol' :=
  l.excess.get?_erase symbol symbol'

theorem get?_carry_self (l : ExcessLedger α) (symbol : Symbol) (quantity : α) :
    (l.carry symbol quantity).excess.get? symbol =
      if l.quantity symbol + quantity == 0.0 then none
      else some (l.quantity symbol + quantity) := by
  rw [carry]
  split <;> simp [Table.get?_erase]

theorem get?_carry_of_ne (l : ExcessLedger α) {symbol symbol' : Symbol} (h : symbol' ≠ symbol)
    (quantity : α) : (l.carry symbol quantity).excess.get? symbol' = l.excess.get? symbol' := by
  rw [carry]
  split
  · rw [Table.get?_erase, if_neg h]
  · exact Table.get?_insert_of_ne _ h _

def carryAll (l : ExcessLedger α) (trades : List (Trade α)) : ExcessLedger α :=
  trades.foldl (fun l t => l.carry t.symbol t.quantity) l

theorem get?_carryAll_of_not_mem (l : ExcessLedger α) {trades : List (Trade α)} {symbol : Symbol}
    (h : symbol ∉ trades.map Trade.symbol) :
    (l.carryAll trades).excess.get? symbol = l.excess.get? symbol := by
  induction trades generalizing l with
  | nil => rfl
  | cons t rest ih =>
    rw [List.map_cons, List.mem_cons, not_or] at h
    rw [carryAll, List.foldl_cons]
    exact (ih (l.carry t.symbol t.quantity) h.2).trans (l.get?_carry_of_ne h.1 t.quantity)

end ExcessLedger

namespace Trade

omit [Scalar α] in
theorem find?_symbol_eq_some_iff {trades : List (Trade α)} (h : (trades.map symbol).Nodup)
    {s : Symbol} {t : Trade α} :
    trades.find? (fun t => t.symbol == s) = some t ↔ t ∈ trades ∧ t.symbol = s := by
  constructor
  · intro hfound
    exact ⟨List.mem_of_find?_eq_some hfound, by simpa using List.find?_some hfound⟩
  · rintro ⟨ht, rfl⟩
    cases hfound : trades.find? (fun t' => t'.symbol == t.symbol) with
    | none => exact absurd (beq_self_eq_true t.symbol) (List.find?_eq_none.1 hfound t ht)
    | some t' =>
      have hsymbol : t'.symbol = t.symbol := by simpa using List.find?_some hfound
      rw [List.inj_on_of_nodup_map h (List.mem_of_find?_eq_some hfound) ht hsymbol]

omit [Scalar α] in
theorem find?_symbol_eq_none_iff {trades : List (Trade α)} {s : Symbol} :
    trades.find? (fun t => t.symbol == s) = none ↔ s ∉ trades.map symbol := by
  rw [List.find?_eq_none, List.mem_map]
  simp

def withExcess (ledger : ExcessLedger α) (t : Trade α) : Trade α :=
  { t with quantity := t.quantity + ledger.quantity t.symbol }

theorem get?_netAll (ledger : ExcessLedger α) (trades : List (Trade α)) (symbol : Symbol) :
    (netAll ledger trades).2.excess.get? symbol =
      if symbol ∈ trades.map Trade.symbol then none else ledger.excess.get? symbol := by
  induction trades generalizing ledger with
  | nil => rfl
  | cons t rest ih =>
    show (netAll (ledger.release t.symbol) rest).2.excess.get? symbol = _
    rw [ih, ledger.get?_release, List.map_cons]
    by_cases h : symbol = t.symbol <;> by_cases h' : symbol ∈ rest.map Trade.symbol <;>
      simp [h, h']

theorem map_symbol_netAll (ledger : ExcessLedger α) (trades : List (Trade α)) :
    (netAll ledger trades).1.map Trade.symbol = trades.map Trade.symbol := by
  induction trades generalizing ledger with
  | nil => rfl
  | cons t rest ih => exact congrArg (t.symbol :: ·) (ih (ledger.release t.symbol))

theorem netAll_eq_map (ledger : ExcessLedger α) {trades : List (Trade α)}
    (h : (trades.map Trade.symbol).Nodup) :
    (netAll ledger trades).1 = trades.map (withExcess ledger) := by
  induction trades generalizing ledger with
  | nil => rfl
  | cons t rest ih =>
    obtain ⟨hhead, hrest⟩ := List.nodup_cons.1 h
    have hsame : ∀ t' ∈ rest,
        withExcess (ledger.release t.symbol) t' = withExcess ledger t' := by
      intro t' ht'
      have hne : t'.symbol ≠ t.symbol := fun heq => hhead (heq ▸ List.mem_map_of_mem ht')
      rw [withExcess, ExcessLedger.quantity, ledger.get?_release, if_neg hne]
      rfl
    show withExcess ledger t :: (netAll (ledger.release t.symbol) rest).1 = _
    rw [ih _ hrest, List.map_congr_left hsame, List.map_cons]

/-! ### Netting keeps the symbols -/

theorem map_symbol_absorb (amount : α) (buys : List (Trade α)) :
    (absorb amount buys).2.map Trade.symbol = buys.map Trade.symbol := by
  induction buys generalizing amount with
  | nil => rfl
  | cons buy rest ih =>
    rw [absorb]
    dsimp only
    split_ifs
    · rfl
    · simp [ih]
    · rfl
    · simp [ih]

theorem perm_sortByAmount (trades : List (Trade α)) : (sortByAmount trades).Perm trades :=
  Sorting.sort_perm _ _

omit [Scalar α] in
theorem perm_sortBySymbol (trades : List (Trade α)) : (sortBySymbol trades).Perm trades :=
  Sorting.sort_perm _ _

theorem perm_symbols_absorbSells (threshold : α) (buys sells : List (Trade α)) :
    ((absorbSells threshold buys sells).1.map Trade.symbol).Perm (buys.map Trade.symbol) ∧
      (absorbSells threshold buys sells).2.map Trade.symbol = sells.map Trade.symbol := by
  induction sells generalizing buys with
  | nil => exact ⟨.refl _, rfl⟩
  | cons sell rest ih =>
    rw [absorbSells]
    dsimp only
    split
    · obtain ⟨hbuys, hsells⟩ := ih (sortByAmount (absorb sell.amount buys).2)
      refine ⟨hbuys.trans ?_, by simp [hsells]⟩
      exact ((perm_sortByAmount _).map Trade.symbol).trans (.of_eq (map_symbol_absorb _ _))
    · obtain ⟨hbuys, hsells⟩ := ih buys
      exact ⟨hbuys, by simp [hsells]⟩

/-- The trades after netting: with their excess, and with the small sells taken out of the buys. -/
def adjusted (threshold : α) (ledger : ExcessLedger α) (trades : List (Trade α)) :
    List (Trade α) :=
  let netted := (netAll ledger trades).1
  let buys := netted.filter fun t => (0.0 : α) < t.quantity
  let sells := netted.filter fun t => !decide ((0.0 : α) < t.quantity)
  let (buys, sells) := absorbSells threshold (sortByAmount buys) sells
  buys ++ sells

/-- **The filter parts the adjusted trades**: what is large is kept, what is small is carried. -/
theorem filterSmall_eq (threshold : α) (ledger : ExcessLedger α) (trades : List (Trade α)) :
    filterSmall threshold ledger trades =
      (sortBySymbol ((adjusted threshold ledger trades).filter (isLarge threshold)),
        (netAll ledger trades).2.carryAll
          ((adjusted threshold ledger trades).filter fun t => !isLarge threshold t)) := by
  simp only [filterSmall, List.partition_eq_filter_filter, adjusted, ExcessLedger.carryAll]
  rfl

theorem perm_symbols_adjusted (threshold : α) (ledger : ExcessLedger α) (trades : List (Trade α)) :
    ((adjusted threshold ledger trades).map Trade.symbol).Perm (trades.map Trade.symbol) := by
  rw [adjusted]
  dsimp only
  obtain ⟨hbuys, hsells⟩ := perm_symbols_absorbSells threshold
    (sortByAmount ((netAll ledger trades).1.filter fun t => (0.0 : α) < t.quantity))
    ((netAll ledger trades).1.filter fun t => !decide ((0.0 : α) < t.quantity))
  rw [List.map_append, hsells, ← map_symbol_netAll ledger trades]
  refine (hbuys.append_right _).trans ?_
  rw [← List.map_append]
  exact (((perm_sortByAmount _).append_right _).trans (List.filter_append_perm _ _)).map _

theorem mem_kept_iff {threshold : α} {ledger : ExcessLedger α} {trades : List (Trade α)}
    {t : Trade α} : t ∈ (filterSmall threshold ledger trades).1 ↔
      t ∈ adjusted threshold ledger trades ∧ threshold < Scalar.abs t.quantity := by
  rw [filterSmall_eq, (perm_sortBySymbol _).mem_iff, List.mem_filter, isLarge, decide_eq_true_iff]

end Trade

end

variable {α : Type} [Field α] [LinearOrder α] [FloorRing α] [InexactFunctions α]

namespace ExcessLedger

theorem get?_carryAll_of_mem {l : ExcessLedger α} {trades : List (Trade α)}
    (hdistinct : (trades.map Trade.symbol).Nodup)
    (hnone : ∀ t ∈ trades, l.excess.get? t.symbol = none) {t : Trade α} (ht : t ∈ trades) :
    (l.carryAll trades).excess.get? t.symbol =
      if t.quantity = 0 then none else some t.quantity := by
  induction trades generalizing l with
  | nil => cases ht
  | cons u rest ih =>
    obtain ⟨hhead, hrest⟩ := List.nodup_cons.1 hdistinct
    obtain ⟨hu, hnone⟩ := List.forall_mem_cons.1 hnone
    rw [carryAll, List.foldl_cons]
    rcases List.mem_cons.1 ht with rfl | ht
    · have hcarried := get?_carryAll_of_not_mem (l.carry t.symbol t.quantity) hhead
      rw [carryAll] at hcarried
      rw [hcarried, get?_carry_self, quantity, hu]
      norm_num
    · refine ih hrest (fun t' ht' => ?_) ht
      have hne : t'.symbol ≠ u.symbol := fun heq => hhead (heq ▸ List.mem_map_of_mem ht')
      rw [l.get?_carry_of_ne hne, hnone t' ht']

/-- No entry is zero or above the threshold. -/
def Within (threshold : α) (l : ExcessLedger α) : Prop :=
  ∀ e ∈ l.excess.entries, e.2 ≠ 0 ∧ |e.2| ≤ threshold

theorem within_empty (threshold : α) : (empty : ExcessLedger α).Within threshold := by
  intro e he
  cases he

theorem Within.of_get? {threshold : α} {l : ExcessLedger α} (h : ∀ symbol q,
    l.excess.get? symbol = some q → q ≠ 0 ∧ |q| ≤ threshold) : l.Within threshold :=
  fun e he => h e.1 e.2 (Table.get?_eq_some_iff.2 he)

theorem Within.get? {threshold : α} {l : ExcessLedger α} (h : l.Within threshold)
    {symbol : Symbol} {q : α} (hq : l.excess.get? symbol = some q) : q ≠ 0 ∧ |q| ≤ threshold :=
  h (symbol, q) (Table.get?_eq_some_iff.1 hq)

end ExcessLedger

namespace Trade

variable {threshold : α} {ledger : ExcessLedger α} {trades : List (Trade α)}

section

variable (h : (trades.map symbol).Nodup)

include h

variable (threshold ledger) in
theorem nodup_symbols_adjusted : ((adjusted threshold ledger trades).map symbol).Nodup :=
  (perm_symbols_adjusted threshold ledger trades).nodup_iff.2 h

/-- **The ledger after a call**: a traded symbol is in it with what is left of its trade, unless
that is kept or zero. -/
theorem get?_excess_of_mem {t : Trade α} (ht : t ∈ adjusted threshold ledger trades) :
    (filterSmall threshold ledger trades).2.excess.get? t.symbol =
      if threshold < |t.quantity| ∨ t.quantity = 0 then none else some t.quantity := by
  have hdistinct := nodup_symbols_adjusted threshold ledger h
  have hreleased : ∀ t' ∈ adjusted threshold ledger trades,
      (netAll ledger trades).2.excess.get? t'.symbol = none := by
    intro t' ht'
    rw [get?_netAll, if_pos]
    exact (perm_symbols_adjusted threshold ledger trades).mem_iff.1 (List.mem_map_of_mem ht')
  rw [filterSmall_eq]
  by_cases hlarge : threshold < |t.quantity|
  · rw [if_pos (.inl hlarge), ExcessLedger.get?_carryAll_of_not_mem _ ?_, hreleased t ht]
    intro hmem
    obtain ⟨t', ht', hsymbol⟩ := List.mem_map.1 hmem
    obtain ⟨ht', hsmall⟩ := List.mem_filter.1 ht'
    obtain rfl := List.inj_on_of_nodup_map hdistinct ht' ht hsymbol
    rw [isLarge, decide_eq_true (show threshold < Scalar.abs t'.quantity from hlarge)] at hsmall
    cases hsmall
  · have hsmall : t ∈ (adjusted threshold ledger trades).filter fun t => !isLarge threshold t := by
      refine List.mem_filter.2 ⟨ht, ?_⟩
      rw [isLarge, decide_eq_false (show ¬ threshold < Scalar.abs t.quantity from hlarge)]
      rfl
    rw [ExcessLedger.get?_carryAll_of_mem ((List.filter_sublist.map symbol).nodup hdistinct)
      (fun t' ht' => hreleased t' (List.mem_filter.1 ht').1) hsmall]
    simp only [hlarge, false_or]

theorem quantity_excess_of_mem {b : Trade α} (hb : b ∈ adjusted threshold ledger trades) :
    (filterSmall threshold ledger trades).2.quantity b.symbol =
      if threshold < |b.quantity| then 0 else b.quantity := by
  rw [ExcessLedger.quantity, get?_excess_of_mem h hb]
  by_cases hlarge : threshold < |b.quantity|
  · rw [if_pos (.inl hlarge), if_pos hlarge]
    norm_num
  · rw [if_neg hlarge]
    by_cases hzero : b.quantity = 0
    · rw [if_pos (.inr hzero), hzero]
      norm_num
    · rw [if_neg (not_or.2 ⟨hlarge, hzero⟩), Option.getD_some]

omit h in
theorem get?_excess_of_not_mem {s : Symbol} (hs : s ∉ trades.map symbol) :
    (filterSmall threshold ledger trades).2.excess.get? s = ledger.excess.get? s := by
  rw [filterSmall_eq, ExcessLedger.get?_carryAll_of_not_mem, get?_netAll, if_neg hs]
  intro hmem
  have hsub := (List.filter_sublist.map symbol).subset hmem
  exact hs ((perm_symbols_adjusted threshold ledger trades).mem_iff.1 hsub)

theorem kept_pairwise : (filterSmall threshold ledger trades).1.Pairwise
    fun a b => compare a.symbol b.symbol = .lt := by
  rw [filterSmall_eq]
  refine Sorting.sort_pairwise_key_lt symbol (List.pairwise_map.1 ?_)
  exact (List.filter_sublist.map symbol).nodup (nodup_symbols_adjusted threshold ledger h)

theorem nodup_symbols_kept : ((filterSmall threshold ledger trades).1.map symbol).Nodup :=
  Table.nodup_of_ascending (kept_pairwise h)

/-- **A trade is kept if it is large** after netting, and else its symbol is not. -/
theorem symbol_mem_kept_iff {t : Trade α} (ht : t ∈ adjusted threshold ledger trades) :
    t.symbol ∈ (filterSmall threshold ledger trades).1.map symbol ↔ threshold < |t.quantity| := by
  constructor
  · intro hkept
    obtain ⟨t', ht', hsymbol⟩ := List.mem_map.1 hkept
    obtain ⟨ht', hlarge⟩ := mem_kept_iff.1 ht'
    obtain rfl := List.inj_on_of_nodup_map (nodup_symbols_adjusted threshold ledger h) ht' ht
      hsymbol
    exact hlarge
  · intro hlarge
    exact List.mem_map_of_mem (mem_kept_iff.2 ⟨ht, hlarge⟩)

end

/-- What a call keeps of some trades, and what it leaves in the ledger. -/
structure Held (threshold : α) (trades : List (Trade α))
    (out : List (Trade α) × ExcessLedger α) : Prop where
  within : out.2.Within threshold
  large : ∀ t ∈ out.1, threshold < |t.quantity|
  ordered : out.1.Pairwise fun a b => compare a.symbol b.symbol = .lt
  proposed : ∀ t ∈ out.1, t.symbol ∈ trades.map symbol
  apart : ∀ t ∈ out.1, out.2.excess.contains t.symbol = false

/-- **A call keeps what is large and carries the rest**, whatever small excess it starts from. -/
theorem held_filterSmall (h : (trades.map symbol).Nodup) (hledger : ledger.Within threshold) :
    Held threshold trades (filterSmall threshold ledger trades) where
  within := by
    apply ExcessLedger.Within.of_get?
    intro s q hq
    by_cases hs : s ∈ trades.map symbol
    · obtain ⟨t, ht, rfl⟩ := List.mem_map.1
        ((perm_symbols_adjusted threshold ledger trades).mem_iff.2 hs)
      rw [get?_excess_of_mem h ht] at hq
      split at hq
      · cases hq
      · rename_i hsmall
        rw [not_or, not_lt] at hsmall
        rw [← Option.some.inj hq]
        exact ⟨hsmall.2, hsmall.1⟩
    · rw [get?_excess_of_not_mem hs] at hq
      exact hledger.get? hq
  large t ht := (mem_kept_iff.1 ht).2
  ordered := kept_pairwise h
  proposed t ht := (perm_symbols_adjusted threshold ledger trades).mem_iff.1
    (List.mem_map_of_mem (mem_kept_iff.1 ht).1)
  apart t ht := by
    obtain ⟨hmem, hlarge⟩ := mem_kept_iff.1 ht
    rw [Table.contains, get?_excess_of_mem h hmem, if_pos (.inl hlarge)]
    rfl

end Trade

end FactorPortfolio
