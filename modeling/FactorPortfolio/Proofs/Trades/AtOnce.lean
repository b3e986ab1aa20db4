import Mathlib.Data.Prod.Lex
import Mathlib.Tactic.Linarith
import FactorPortfolio.Proofs.Scalar.Order
import FactorPortfolio.Proofs.Trades.Netting

/-!
# Small sells are taken out of the buys at once

The filter takes the small sells out of the buys one after the other, and puts the buys in order
again after each.  It comes to the same to take all of their dollars out in one pass
(`keptAtOnce`): a buy that is used up has no part in what comes after (`buysOf_takeOut_buysOf`), and
those that are left stay in their order (`pairwise_buysOf_takeOut`), so that each sell goes on where
the one before it stopped (`takeOut_takeOut`).  What is kept is therefore the same in whatever order
the trades are given: `kept_at_once`.
-/

namespace FactorPortfolio.Trade

variable {α : Type} [Field α] [LinearOrder α] [FloorRing α] [InexactFunctions α]

/-- A buy after some dollars were taken out of it. -/
def less (t : Trade α) (taken : α) : Trade α :=
  { t with quantity := (t.amount - taken) / t.price }

/-- Takes dollars out of buys in their order, of each as many as it is worth. -/
def takeOut (total : α) : List (Trade α) → List (Trade α)
  | [] => []
  | buy :: rest => buy.less (min total buy.amount) :: takeOut (total - min total buy.amount) rest

/-- The key of the order of the buys: by amount, and by symbol where amounts are equal. -/
def amountKey (t : Trade α) : α ×ₗ Symbol := toLex (t.amount, t.symbol)

/-- Buys and sells after the dollars of all small sells were taken out of the buys, smallest amount
first. -/
def atOnce (threshold : α) (trades : List (Trade α)) : List (Trade α) :=
  let buys := (buysOf trades).insertionSort fun a b => amountKey a ≤ amountKey b
  takeOut (smallDollars threshold (sellsOf trades)) buys ++ sellsOf trades

/-- What is kept if small sells are taken out of the buys at once: what is above the threshold then,
in order of the symbols. -/
def keptAtOnce (threshold : α) (ledger : ExcessLedger α) (trades : List (Trade α)) :
    List (Trade α) :=
  let large := (atOnce threshold (netted ledger trades)).filter fun t => threshold < |t.quantity|
  large.insertionSort fun a b => a.symbol ≤ b.symbol

/-! ### The order of the buys -/

theorem amountKey_ne_of_nodup {trades : List (Trade α)} (h : (trades.map symbol).Nodup) :
    trades.Pairwise fun a b => amountKey a ≠ amountKey b :=
  (List.pairwise_map.1 h).imp fun hab heq => hab (Prod.ext_iff.1 (toLex.injective heq)).2

theorem sortByAmount_pairwise {trades : List (Trade α)} (h : (trades.map symbol).Nodup) :
    (sortByAmount trades).Pairwise fun a b => amountKey a < amountKey b := by
  refine Sorting.sort_pairwise_lt amountKey (fun a _ b _ => ?_) (amountKey_ne_of_nodup h)
  rw [beq_iff_eq, Scalar.order_then_eq_lt_iff (Exact.isNaN_eq _) (Exact.isNaN_eq _), beq_iff_eq,
    compare_lt_iff_lt, amountKey, amountKey, Prod.Lex.toLex_lt_toLex]

theorem insertionSort_eq_sortByAmount {trades trades' : List (Trade α)}
    (h : (trades.map symbol).Nodup) (hperm : trades.Perm trades') :
    trades'.insertionSort (fun a b => amountKey a ≤ amountKey b) = sortByAmount trades :=
  Sorting.insertionSort_eq amountKey ((perm_sortByAmount trades).trans hperm)
    (sortByAmount_pairwise h)

theorem nodup_symbols_buysOf {trades : List (Trade α)} (h : (trades.map symbol).Nodup) :
    ((buysOf trades).map symbol).Nodup := (List.filter_sublist.map symbol).nodup h

/-- Buys whose living ones are in order already stay as they are if they are sorted again. -/
theorem buysOf_sortByAmount {trades : List (Trade α)} (h : (trades.map symbol).Nodup)
    (hsorted : (buysOf trades).Pairwise fun a b => amountKey a < amountKey b) :
    buysOf (sortByAmount trades) = buysOf trades :=
  Sorting.eq_of_pairwise_lt amountKey ((perm_sortByAmount trades).filter _)
    ((sortByAmount_pairwise h).filter _) hsorted

theorem buysOf_cons (t : Trade α) (rest : List (Trade α)) :
    buysOf (t :: rest) = if 0 < t.quantity then t :: buysOf rest else buysOf rest := by
  rw [buysOf, List.filter_cons]
  simp only [decide_eq_true_iff]
  rfl

theorem map_symbol_takeOut (total : α) (buys : List (Trade α)) :
    (takeOut total buys).map symbol = buys.map symbol := by
  induction buys generalizing total with
  | nil => rfl
  | cons buy rest ih => exact congrArg (buy.symbol :: ·) (ih _)

/-! ### Taking dollars out of one buy -/

variable [IsStrictOrderedRing α]

section

variable {t : Trade α} (hp : 0 < t.price)

include hp

theorem amount_less {taken : α} (h : taken ≤ t.amount) :
    (t.less taken).amount = t.amount - taken := by
  have hle := sub_nonneg.2 h
  have hamount : (t.less taken).amount = |(t.amount - taken) / t.price * t.price| := rfl
  rw [hamount, div_mul_cancel₀ _ hp.ne', abs_of_nonneg hle]

theorem less_zero (hq : 0 ≤ t.quantity) : t.less 0 = t := by
  have hquantity : (t.amount - 0) / t.price = t.quantity := by
    rw [sub_zero, amount_buy hq hp, mul_div_cancel_right₀ _ hp.ne']
  rw [less, hquantity]

theorem less_less {x : α} (h : x ≤ t.amount) (y : α) : (t.less x).less y = t.less (x + y) := by
  have hamount := amount_less hp h
  rw [less, hamount, sub_sub]
  rfl

theorem quantity_less_pos_iff {taken : α} : 0 < (t.less taken).quantity ↔ taken < t.amount :=
  (div_pos_iff_of_pos_right hp).trans sub_pos

theorem quantity_less_nonneg {taken : α} (h : taken ≤ t.amount) : 0 ≤ (t.less taken).quantity :=
  div_nonneg (sub_nonneg.2 h) hp.le

/-- A buy moves to the front if at all. -/
theorem amountKey_less_le {taken : α} (hlow : 0 ≤ taken) (h : taken ≤ t.amount) :
    amountKey (t.less taken) ≤ amountKey t := by
  refine Prod.Lex.toLex_mono (Prod.mk_le_mk.2 ⟨?_, le_rfl⟩)
  rw [amount_less hp h]
  exact sub_le_self _ hlow

end

theorem amount_nonneg (t : Trade α) : 0 ≤ t.amount := abs_nonneg _

/-! ### Taking dollars out of buys in their order -/

section

variable {buys : List (Trade α)} (hbuys : ∀ b ∈ buys, 0 ≤ b.quantity ∧ 0 < b.price)

include hbuys

theorem forall_mem_takeOut (total : α) :
    ∀ b ∈ takeOut total buys, 0 ≤ b.quantity ∧ 0 < b.price := by
  induction buys generalizing total with
  | nil => exact hbuys
  | cons buy rest ih =>
    obtain ⟨⟨-, hp⟩, hrest⟩ := List.forall_mem_cons.1 hbuys
    exact List.forall_mem_cons.2 ⟨⟨quantity_less_nonneg hp (min_le_right _ _), hp⟩, ih hrest _⟩

theorem takeOut_zero : takeOut 0 buys = buys := by
  induction buys with
  | nil => rfl
  | cons buy rest ih =>
    obtain ⟨⟨hq, hp⟩, hrest⟩ := List.forall_mem_cons.1 hbuys
    rw [takeOut, min_eq_left buy.amount_nonneg, less_zero hp hq, sub_zero, ih hrest]

/-- The filter takes dollars out one buy after the other. -/
theorem absorb_eq_takeOut {amount : α} (hamount : 0 ≤ amount) :
    (absorb amount buys).2 = takeOut amount buys := by
  induction buys generalizing amount with
  | nil => rfl
  | cons buy rest ih =>
    obtain ⟨⟨hq, hp⟩, hrest⟩ := List.forall_mem_cons.1 hbuys
    rw [absorb_cons, if_pos hp]
    split_ifs with hstop hleft
    · rw [le_antisymm hstop hamount, takeOut_zero hbuys]
    · have hnone : buy.less buy.amount = { buy with quantity := 0 } := by
        rw [less, sub_self, zero_div]
      rw [takeOut, min_eq_right hleft.le, hnone, ih hrest (sub_nonneg.2 hleft.le)]
    · rw [takeOut, min_eq_left (not_lt.1 hleft), sub_self, takeOut_zero hrest]
      rfl

/-- **Dollars that are taken out in two passes are taken out in one.** -/
theorem takeOut_takeOut {first second : α} (hfirst : 0 ≤ first) (hsecond : 0 ≤ second) :
    takeOut second (takeOut first buys) = takeOut (first + second) buys := by
  induction buys generalizing first second with
  | nil => rfl
  | cons buy rest ih =>
    obtain ⟨⟨-, hp⟩, hrest⟩ := List.forall_mem_cons.1 hbuys
    have hle := min_le_right first buy.amount
    -- the second pass takes of the first buy what the first pass left of it
    have htaken : min first buy.amount + min second (buy.amount - min first buy.amount) =
        min (first + second) buy.amount := by
      rcases le_total first buy.amount with h | h
      · rw [min_eq_left h, ← min_add_add_left, add_sub_cancel]
      · rw [min_eq_right h, sub_self, min_eq_right hsecond, add_zero,
          min_eq_right (h.trans (le_add_of_nonneg_right hsecond))]
    rw [takeOut, takeOut, takeOut, amount_less hp hle, less_less hp hle, htaken,
      ih hrest (sub_nonneg.2 (min_le_left _ _)) (sub_nonneg.2 (min_le_left _ _)), ← htaken]
    ring_nf

theorem buysOf_takeOut_buysOf {total : α} (htotal : 0 ≤ total) :
    buysOf (takeOut total (buysOf buys)) = buysOf (takeOut total buys) := by
  induction buys generalizing total with
  | nil => rfl
  | cons buy rest ih =>
    obtain ⟨⟨hq, hp⟩, hrest⟩ := List.forall_mem_cons.1 hbuys
    rcases hq.eq_or_lt with hzero | hpos
    · have hamount : buy.amount = 0 := by
        rw [amount_buy hq hp, ← hzero, zero_mul]
      rw [buysOf_cons, if_neg hzero.not_lt, ih hrest htotal, takeOut, hamount,
        min_eq_right htotal, sub_zero, less_zero hp hq, buysOf_cons, if_neg hzero.not_lt]
    · rw [buysOf_cons, if_pos hpos, takeOut, takeOut, buysOf_cons, buysOf_cons,
        ih hrest (sub_nonneg.2 (min_le_left _ _))]

/-- **The buys that are left stay in their order.**  Only the first of them is worth less than
before. -/
theorem pairwise_buysOf_takeOut {total : α} (htotal : 0 ≤ total)
    (h : buys.Pairwise fun a b => amountKey a < amountKey b) :
    (buysOf (takeOut total buys)).Pairwise fun a b => amountKey a < amountKey b := by
  induction buys generalizing total with
  | nil => exact .nil
  | cons buy rest ih =>
    obtain ⟨⟨hq, hp⟩, hrest⟩ := List.forall_mem_cons.1 hbuys
    obtain ⟨hhead, htail⟩ := List.pairwise_cons.1 h
    rw [takeOut]
    rcases le_or_gt buy.amount total with hused | hleft
    · have hdead : ¬ 0 < (buy.less (min total buy.amount)).quantity := by
        rw [quantity_less_pos_iff hp, min_eq_right hused]
        exact lt_irrefl _
      rw [buysOf_cons, if_neg hdead]
      exact ih hrest (sub_nonneg.2 (min_le_left _ _)) htail
    · rw [min_eq_left hleft.le, sub_self, takeOut_zero hrest]
      refine List.Pairwise.filter _ (List.pairwise_cons.2 ⟨fun b hb => ?_, htail⟩)
      exact (amountKey_less_le hp htotal hleft.le).trans_lt (hhead b hb)

end

/-! ### One sell after the other -/

variable {threshold : α}

/-- **What is left of the buys is what one pass leaves of them**, buys that are used up apart. -/
theorem buysOf_absorbSells {buys : List (Trade α)}
    (hbuys : ∀ b ∈ buys, 0 ≤ b.quantity ∧ 0 < b.price) (h : (buys.map symbol).Nodup)
    (hsorted : buys.Pairwise fun a b => amountKey a < amountKey b) (sells : List (Trade α)) :
    buysOf (absorbSells threshold buys sells).1 =
      buysOf (takeOut (smallDollars threshold sells) buys) := by
  induction sells generalizing buys with
  | nil =>
    have hzero : smallDollars threshold ([] : List (Trade α)) = 0 := rfl
    rw [hzero, takeOut_zero hbuys]
    rfl
  | cons sell rest ih =>
    by_cases hsmall : |sell.quantity| ≤ threshold
    · have hamount := sell.amount_nonneg
      have hrest := smallDollars_nonneg threshold rest
      have hleft := forall_mem_takeOut hbuys sell.amount
      have hsymbols : ((takeOut sell.amount buys).map symbol).Nodup := by
        rwa [map_symbol_takeOut]
      have hperm := perm_sortByAmount (takeOut sell.amount buys)
      have hagain : ∀ b ∈ sortByAmount (takeOut sell.amount buys), 0 ≤ b.quantity ∧ 0 < b.price :=
        fun b hb => hleft b (hperm.mem_iff.1 hb)
      have hlive := buysOf_sortByAmount hsymbols (pairwise_buysOf_takeOut hbuys hamount hsorted)
      rw [absorbSells_cons_small hsmall, smallDollars_cons_small hsmall,
        absorb_eq_takeOut hbuys hamount]
      calc buysOf (absorbSells threshold (sortByAmount (takeOut sell.amount buys)) rest).1
        _ = buysOf (takeOut (smallDollars threshold rest)
              (sortByAmount (takeOut sell.amount buys))) :=
          ih hagain ((hperm.map symbol).nodup_iff.2 hsymbols) (sortByAmount_pairwise hsymbols)
        _ = buysOf (takeOut (smallDollars threshold rest) (takeOut sell.amount buys)) := by
          rw [← buysOf_takeOut_buysOf hagain hrest, hlive, buysOf_takeOut_buysOf hleft hrest]
        _ = buysOf (takeOut (sell.amount + smallDollars threshold rest) buys) := by
          rw [takeOut_takeOut hbuys hamount hrest]
    · rw [absorbSells_cons_large hsmall, smallDollars_cons_large hsmall]
      exact ih hbuys h hsorted

theorem filter_isLarge_absorbSells {buys sells : List (Trade α)}
    (hbuys : ∀ b ∈ buys, 0 ≤ b.quantity) (hsells : ∀ s ∈ sells, s.quantity ≤ 0) :
    (absorbSells threshold buys sells).2.filter (isLarge threshold) =
      sells.filter (isLarge threshold) := by
  induction sells generalizing buys with
  | nil => rfl
  | cons sell rest ih =>
    obtain ⟨hsell, hrest⟩ := List.forall_mem_cons.1 hsells
    by_cases hsmall : |sell.quantity| ≤ threshold
    · obtain ⟨hlow, hhigh⟩ := remaining_absorb_bounds hbuys sell.amount_nonneg
      obtain ⟨hle, hnonpos⟩ := (settles_relieved hsell hsmall hlow hhigh).sell hsell
      have hrelieved : ¬ isLarge threshold (sell.relieved (absorb sell.amount buys).1) = true := by
        rw [isLarge_iff, not_lt, abs_of_nonpos hnonpos]
        rw [abs_of_nonpos hsell] at hsmall
        linarith
      have hbefore : ¬ isLarge threshold sell = true := by
        rwa [isLarge_iff, not_lt]
      rw [absorbSells_cons_small hsmall, List.filter_cons_of_neg hrelieved,
        List.filter_cons_of_neg hbefore]
      exact ih (nonneg_of_settlesAll (settlesAll_absorb threshold hbuys _) hbuys) hrest
    · rw [absorbSells_cons_large hsmall, List.filter_cons, List.filter_cons, ih hbuys hrest]

/-! ### What is kept -/

theorem filter_isLarge_buysOf (hthreshold : 0 ≤ threshold) {buys : List (Trade α)}
    (hbuys : ∀ b ∈ buys, 0 ≤ b.quantity) :
    (buysOf buys).filter (isLarge threshold) = buys.filter (isLarge threshold) := by
  rw [buysOf, List.filter_filter]
  refine List.filter_congr fun b hb => ?_
  rw [Bool.and_eq_left_iff_imp, isLarge_iff, abs_of_nonneg (hbuys b hb), decide_eq_true_iff]
  exact hthreshold.trans_lt

variable {ledger : ExcessLedger α} {trades : List (Trade α)}

section

variable (h : (trades.map symbol).Nodup)

include h

omit [IsStrictOrderedRing α] in
variable (threshold) in
theorem atOnce_perm {trades' : List (Trade α)} (hperm : trades.Perm trades') :
    (atOnce threshold trades).Perm (atOnce threshold trades') := by
  have hbuys : (buysOf trades).Perm (buysOf trades') := hperm.filter _
  have hsells : (sellsOf trades).Perm (sellsOf trades') := hperm.filter _
  have hdollars : smallDollars threshold (sellsOf trades) =
      smallDollars threshold (sellsOf trades') := ((hsells.filter _).map amount).sum_eq
  have hsymbols := nodup_symbols_buysOf h
  rw [atOnce, atOnce, insertionSort_eq_sortByAmount hsymbols (.refl _),
    insertionSort_eq_sortByAmount hsymbols hbuys, hdollars]
  exact hsells.append_left _

variable (hthreshold : 0 ≤ threshold) (hprices : ∀ t ∈ trades, 0 < t.price)

include hthreshold hprices

/-- One sell after the other or all at once, the same is large afterwards. -/
theorem filter_isLarge_parted :
    ((parted threshold trades).1 ++ (parted threshold trades).2).filter (isLarge threshold) =
      (atOnce threshold trades).filter (isLarge threshold) := by
  have hsymbols := nodup_symbols_buysOf h
  have hsorted := perm_sortByAmount (buysOf trades)
  have hbuys : ∀ b ∈ sortByAmount (buysOf trades), 0 ≤ b.quantity ∧ 0 < b.price := by
    intro b hb
    have hb := hsorted.mem_iff.1 hb
    exact ⟨nonneg_buysOf hb, hprices b (mem_buysOf.1 hb).1⟩
  have hpass : buysOf (parted threshold trades).1 =
      buysOf (takeOut (smallDollars threshold (sellsOf trades)) (sortByAmount (buysOf trades))) :=
    buysOf_absorbSells hbuys ((hsorted.map symbol).nodup_iff.2 hsymbols)
      (sortByAmount_pairwise hsymbols) _
  have hsells : (parted threshold trades).2.filter (isLarge threshold) =
      (sellsOf trades).filter (isLarge threshold) :=
    filter_isLarge_absorbSells (fun b hb => (hbuys b hb).1) fun s => nonpos_sellsOf
  have hleft := nonneg_of_settlesAll (settlesAll_parted threshold trades).1 fun b => nonneg_buysOf
  rw [List.filter_append, hsells, ← filter_isLarge_buysOf hthreshold hleft, hpass,
    filter_isLarge_buysOf hthreshold fun b hb => (forall_mem_takeOut hbuys _ b hb).1,
    ← List.filter_append, atOnce, insertionSort_eq_sortByAmount hsymbols (.refl _)]

variable (ledger) in
theorem kept_perm : (filterSmall threshold ledger trades).1.Perm
    ((atOnce threshold (netted ledger trades)).filter (isLarge threshold)) := by
  rw [filterSmall_eq, adjusted_eq h, filter_isLarge_parted (by rwa [map_symbol_netted]) hthreshold
    (price_pos_netted ledger hprices)]
  exact perm_sortBySymbol _

end

/-- **Small sells may be taken out of the buys at once.**  The filter, which takes them out one
after the other, keeps the same trades, in whatever order they are given. -/
theorem kept_at_once (ledger : ExcessLedger α) (hthreshold : 0 ≤ threshold)
    (h : (trades.map symbol).Nodup) (hprices : ∀ t ∈ trades, 0 < t.price) :
    (filterSmall threshold ledger trades).1 = keptAtOnce threshold ledger trades ∧
    ∀ trades', trades.Perm trades' →
      (filterSmall threshold ledger trades').1 = (filterSmall threshold ledger trades).1 := by
  have hstrict : ∀ {l : List (Trade α)}, (l.map symbol).Nodup →
      (filterSmall threshold ledger l).1.Pairwise fun a b => a.symbol < b.symbol :=
    fun hl => (kept_pairwise hl).imp compare_lt_iff_lt.1
  have hkept := kept_perm ledger h hthreshold hprices
  refine ⟨(Sorting.insertionSort_eq symbol hkept (hstrict h)).symm, fun trades' hperm => ?_⟩
  have h' := (hperm.map symbol).nodup_iff.1 h
  have hkept' := kept_perm ledger h' hthreshold
    fun t ht => hprices t (hperm.mem_iff.2 ht)
  have hnodup : ((netted ledger trades).map symbol).Nodup := by
    rwa [map_symbol_netted]
  have hout := (atOnce_perm threshold hnodup (hperm.map _)).filter (isLarge threshold)
  exact Sorting.eq_of_pairwise_lt symbol (hkept'.trans (hout.symm.trans hkept.symm)) (hstrict h')
    (hstrict h)

/-- Buys of which two are of the same amount, once one of them is netted with what is held back. -/
def tiedBuys : List (Trade ℚ) := [⟨"GOOG", 4, 1⟩, ⟨"TSLA", -1.5, 1⟩, ⟨"AAPL", 3, 1⟩,
  ⟨"NVDA", -5, 1⟩, ⟨"MSFT", -1, 2⟩, ⟨"AMZN", 5, 2⟩]

def oneToSell : ExcessLedger ℚ := ExcessLedger.empty.carry "GOOG" (-1)

/-- The first of two small sells takes half of a buy; the second uses the buy up, which has moved to
the front, and goes on with the other buy that was of the same amount. -/
theorem kept_at_once_tiedBuys :
    (keptAtOnce 2 oneToSell tiedBuys).map (fun t => (t.symbol, t.quantity)) =
      [("AMZN", 5), ("GOOG", 2.5), ("NVDA", -5)] ∧
    (filterSmall 2 oneToSell tiedBuys).1 = keptAtOnce 2 oneToSell tiedBuys ∧
    (filterSmall 2 oneToSell tiedBuys.reverse).1 = (filterSmall 2 oneToSell tiedBuys).1 := by
  have hprices : ∀ t ∈ tiedBuys, 0 < t.price := by
    simp [tiedBuys]
  obtain ⟨hkept, hperm⟩ :=
    kept_at_once oneToSell (show (0 : ℚ) ≤ 2 by norm_num) (by decide) hprices
  exact ⟨by decide +kernel, hkept, hperm _ (List.reverse_perm _).symm⟩

end FactorPortfolio.Trade
