import Mathlib.Tactic.Linarith
import FactorPortfolio.Proofs.Backtest.Excess
import FactorPortfolio.Proofs.Trades.Netting

/-!
# How far reported trades and reported portfolios part

A backtest goes on from the full target of a day, while its trades are what the filter keeps.
Carried out on the portfolio of the sample before, they miss the portfolio of their sample by what
was held back before, what is held back now, and what netting made of the trade (`drift_eq`).  That
is no more than what may be held back, once for a symbol whose trade is reported and twice for any
other, and what small sells took out of its buy; and all that they take out is worth no more than
they are: `trades_explain_portfolios`.
-/

namespace FactorPortfolio

variable {α : Type} [Field α] [LinearOrder α] [FloorRing α] [InexactFunctions α]

theorem ExcessLedger.Within.abs_quantity_le {threshold : α} [IsStrictOrderedRing α]
    {l : ExcessLedger α} (h : l.Within threshold) (s : Symbol) :
    |l.quantity s| ≤ max threshold 0 := by
  rw [quantity]
  cases hs : l.excess.get? s with
  | none => norm_num
  | some q => exact (h.get? hs).2.trans (le_max_left _ _)

namespace Trade

/-- The quantity that small sells take out of the buy of a symbol. -/
def takenOut (threshold : α) (ledger : ExcessLedger α) (trades : List (Trade α)) (s : Symbol) : α :=
  match (buysOf (netted ledger trades)).find? fun t => t.symbol == s with
  | some t => t.quantity - settled (filterSmall threshold ledger trades) s
  | none => 0

variable {threshold : α} {ledger : ExcessLedger α} {current target : Portfolio α}
  {prices : Table Symbol α} {proposed : List (Trade α)}

section

variable (h : (proposed.map symbol).Nodup)

include h

theorem takenOut_of_mem {t : Trade α} (ht : t ∈ netted ledger proposed) :
    takenOut threshold ledger proposed t.symbol =
      if 0 < t.quantity then t.quantity - settled (filterSmall threshold ledger proposed) t.symbol
      else 0 := by
  have hsymbols : ((netted ledger proposed).map symbol).Nodup := by
    rwa [map_symbol_netted]
  have hbuys : ((buysOf (netted ledger proposed)).map symbol).Nodup :=
    (List.filter_sublist.map symbol).nodup hsymbols
  rw [takenOut]
  by_cases hbuy : 0 < t.quantity
  · rw [(find?_symbol_eq_some_iff hbuys).2 ⟨mem_buysOf.2 ⟨ht, hbuy⟩, rfl⟩, if_pos hbuy]
  · rw [find?_symbol_eq_none_iff.2, if_neg hbuy]
    intro hmem
    obtain ⟨t', ht', hsymbol⟩ := List.mem_map.1 hmem
    obtain ⟨ht', hbuy'⟩ := mem_buysOf.1 ht'
    obtain rfl := List.inj_on_of_nodup_map hsymbols ht' ht hsymbol
    exact hbuy hbuy'

omit h in
theorem takenOut_of_not_mem {s : Symbol} (hs : s ∉ proposed.map symbol) :
    takenOut threshold ledger proposed s = 0 := by
  rw [takenOut, find?_symbol_eq_none_iff.2]
  intro hmem
  rw [← map_symbol_netted ledger] at hs
  exact hs ((List.filter_sublist.map symbol).subset hmem)

end

theorem symbol_not_mem_kept {s : Symbol} (hs : s ∉ proposed.map symbol) :
    s ∉ (filterSmall threshold ledger proposed).1.map symbol := by
  intro hkept
  obtain ⟨t, ht, rfl⟩ := List.mem_map.1 hkept
  exact hs ((perm_symbols_adjusted threshold ledger proposed).mem_iff.1
    (List.mem_map_of_mem (mem_kept_iff.1 ht).1))

/-- By how much trades that are carried out on a portfolio miss the quantity of another. -/
def drift (current target : Portfolio α) (trades : List (Trade α)) (s : Symbol) : α :=
  (current.tradeAll trades).quantity s - target.quantity s

section

variable (hdiff : diff current target prices = .ok proposed)

include hdiff

theorem drift_eq_zero {s : Symbol} (hs : s ∉ proposed.map symbol) :
    drift current target (filterSmall threshold ledger proposed).1 s = 0 := by
  rw [drift, Portfolio.quantity_tradeAll_of_not_mem _ (symbol_not_mem_kept hs),
    quantity_eq_of_not_mem_diff hdiff hs, sub_self]

/-- **What is traded** is off by what was held back before, what is held back now, and what the
trade lost by netting. -/
theorem drift_eq {t b : Trade α} (ht : t ∈ proposed) (hb : b ∈ adjusted threshold ledger proposed)
    (hsymbol : b.symbol = t.symbol) :
    drift current target (filterSmall threshold ledger proposed).1 t.symbol =
      ledger.quantity t.symbol - (filterSmall threshold ledger proposed).2.quantity t.symbol -
        ((withExcess ledger t).quantity - b.quantity) := by
  have hdistinct := nodup_symbols_diff hdiff
  have hquantity := ((mem_diff_iff hdiff).1 ht).1
  have hexcess := quantity_excess_of_mem hdistinct hb
  have hnet : (withExcess ledger t).quantity = t.quantity + ledger.quantity t.symbol := rfl
  rw [hsymbol] at hexcess
  rw [drift, hnet, hexcess, hquantity]
  by_cases hlarge : threshold < |b.quantity|
  · have hheld := Portfolio.quantity_tradeAll_of_mem current (nodup_symbols_kept hdistinct)
      (mem_kept_iff.2 ⟨hb, hlarge⟩)
    rw [hsymbol] at hheld
    rw [hheld, if_pos hlarge]
    ring
  · have hnotKept := mt (symbol_mem_kept_iff hdistinct hb).1 hlarge
    rw [hsymbol] at hnotKept
    rw [Portfolio.quantity_tradeAll_of_not_mem _ hnotKept, if_neg hlarge]
    ring

end

variable [IsStrictOrderedRing α]

theorem Settles.abs_quantity_le {a b : Trade α} (h : Settles threshold a b) :
    |b.quantity| ≤ |a.quantity| := by
  rcases le_total 0 a.quantity with ha | ha
  · obtain ⟨hb, hle⟩ := h.buy ha
    rwa [abs_of_nonneg hb, abs_of_nonneg ha]
  · obtain ⟨hle, hb⟩ := h.sell ha
    rw [abs_of_nonpos hb, abs_of_nonpos ha]
    exact neg_le_neg hle

section

variable (hdiff : diff current target prices = .ok proposed)

include hdiff

variable (threshold ledger) in
/-- Each trade settles to one of the adjusted trades, by which the drift of its symbol and what is
taken out of it are known. -/
theorem exists_adjusted {t : Trade α} (ht : t ∈ proposed) :
    ∃ b ∈ adjusted threshold ledger proposed, b.symbol = t.symbol ∧
      Settles threshold (withExcess ledger t) b ∧
      takenOut threshold ledger proposed t.symbol =
        if 0 < (withExcess ledger t).quantity then (withExcess ledger t).quantity - b.quantity
        else 0 := by
  have hdistinct := nodup_symbols_diff hdiff
  have hnetted : withExcess ledger t ∈ netted ledger proposed := List.mem_map_of_mem ht
  obtain ⟨b, hb, hsettles, hsettled⟩ := exists_settled threshold hdistinct hnetted
  refine ⟨b, hb, hsettles.symbol_eq, hsettles, ?_⟩
  rw [← hsettled]
  exact takenOut_of_mem hdistinct hnetted

variable (hledger : ledger.Within threshold)

include hledger

/-- **No symbol drifts** by more than twice what may be held back and what is taken out of it. -/
theorem abs_drift_le (s : Symbol) :
    |drift current target (filterSmall threshold ledger proposed).1 s| ≤
      2 * max threshold 0 + takenOut threshold ledger proposed s := by
  by_cases hs : s ∈ proposed.map symbol
  · obtain ⟨t, ht, rfl⟩ := List.mem_map.1 hs
    obtain ⟨b, hb, hsymbol, hsettles, htaken⟩ := exists_adjusted threshold ledger hdiff ht
    have hdistinct := nodup_symbols_diff hdiff
    have hbefore := abs_le.1 (hledger.abs_quantity_le t.symbol)
    have hafter := abs_le.1 ((held_filterSmall hdistinct hledger).within.abs_quantity_le t.symbol)
    rw [drift_eq hdiff ht hb hsymbol, htaken, abs_le]
    by_cases hbuy : 0 < (withExcess ledger t).quantity
    · obtain ⟨_, hle⟩ := hsettles.buy hbuy.le
      rw [if_pos hbuy]
      constructor <;> linarith
    · rw [if_neg hbuy]
      have hsell := not_lt.1 hbuy
      by_cases hlarge : threshold < |(withExcess ledger t).quantity|
      · rw [hsettles.large hsell hlarge]
        constructor <;> linarith
      · -- a small sell is held back, so that its own quantity is what counts
        have hsmall : |b.quantity| ≤ threshold :=
          hsettles.abs_quantity_le.trans (not_lt.1 hlarge)
        have hexcess := quantity_excess_of_mem hdistinct hb
        have hnet := abs_le.1 ((not_lt.1 hlarge).trans (le_max_left threshold 0))
        rw [if_neg (not_lt.2 hsmall), hsymbol] at hexcess
        rw [hexcess]
        constructor <;> linarith
  · rw [drift_eq_zero hdiff hs, takenOut_of_not_mem hs, abs_zero, add_zero]
    exact mul_nonneg zero_le_two (le_max_right threshold 0)

theorem abs_drift_le_of_kept {s : Symbol}
    (hs : s ∈ (filterSmall threshold ledger proposed).1.map symbol) :
    |drift current target (filterSmall threshold ledger proposed).1 s| ≤
      max threshold 0 + takenOut threshold ledger proposed s := by
  obtain ⟨b, hkept, rfl⟩ := List.mem_map.1 hs
  obtain ⟨hb, hlarge⟩ : _ ∧ threshold < |b.quantity| := mem_kept_iff.1 hkept
  obtain ⟨t, ht, hsymbol⟩ := List.mem_map.1
    ((perm_symbols_adjusted threshold ledger proposed).mem_iff.1 (List.mem_map_of_mem hb))
  have hdistinct := nodup_symbols_diff hdiff
  obtain ⟨b', hb', hsymbol', hsettles, htaken⟩ := exists_adjusted threshold ledger hdiff ht
  obtain rfl := List.inj_on_of_nodup_map (nodup_symbols_adjusted threshold ledger hdistinct) hb' hb
    (hsymbol'.trans hsymbol)
  have hbefore := abs_le.1 (hledger.abs_quantity_le t.symbol)
  have hexcess := quantity_excess_of_mem hdistinct hb
  rw [if_pos hlarge, hsymbol'] at hexcess
  rw [hsymbol', drift_eq hdiff ht hb hsymbol', htaken, hexcess, abs_le]
  by_cases hbuy : 0 < (withExcess ledger t).quantity
  · obtain ⟨_, hle⟩ := hsettles.buy hbuy.le
    rw [if_pos hbuy]
    constructor <;> linarith
  · -- no small sell is kept, and a large one loses nothing
    rw [if_neg hbuy, hsettles.large (not_lt.1 hbuy) (hlarge.trans_le hsettles.abs_quantity_le)]
    constructor <;> linarith

end

/-- **What is taken out of the buys** is worth no more than the small sells. -/
theorem sum_takenOut_le (h : (proposed.map symbol).Nodup) :
    (proposed.map fun t => takenOut threshold ledger proposed t.symbol * t.price).sum ≤
      smallDollars threshold (sellsOf (netted ledger proposed)) := by
  have hbuys : ∀ b ∈ sortByAmount (buysOf (netted ledger proposed)), 0 ≤ b.quantity :=
    fun b hb => nonneg_buysOf ((perm_sortByAmount _).mem_iff.1 hb)
  have hlost := dollars_absorbSells_le threshold hbuys (sellsOf (netted ledger proposed))
  calc (proposed.map fun t => takenOut threshold ledger proposed t.symbol * t.price).sum
      = ((netted ledger proposed).map
          fun t => takenOut threshold ledger proposed t.symbol * t.price).sum := by
        rw [netted, List.map_map]
        rfl
    _ = ((buysOf (netted ledger proposed)).map
          fun t => takenOut threshold ledger proposed t.symbol * t.price).sum := by
        refine (sum_map_filter ?_).symm
        intro t ht hsell
        rw [takenOut_of_mem h ht, if_neg (of_decide_eq_false hsell), zero_mul]
    _ = ((buysOf (netted ledger proposed)).map fun t => (t.quantity -
          settled (filterSmall threshold ledger proposed) t.symbol) * t.price).sum := by
        congr 1
        refine List.map_congr_left fun t ht => ?_
        obtain ⟨ht, hbuy⟩ := mem_buysOf.1 ht
        rw [takenOut_of_mem h ht, if_pos hbuy]
    _ = dollars (buysOf (netted ledger proposed)) -
          dollars (parted threshold (netted ledger proposed)).1 := by
        rw [sum_sub_mul_price Trade.quantity, sum_settled_buys threshold ledger h]
        rfl
    _ ≤ smallDollars threshold (sellsOf (netted ledger proposed)) := by
        rwa [dollars_perm (perm_sortByAmount _)] at hlost

end Trade

namespace Backtest

open Trade

/-- The trades of a sample account for its portfolio, but for what is held back and taken out. -/
structure Explained (threshold : α) (ledger : ExcessLedger α) (proposed : List (Trade α))
    (a b : Sample α) : Prop where
  proposes : diff a.portfolio b.portfolio b.prices = .ok proposed
  keeps : b.trades = (filterSmall threshold ledger proposed).1
  carried : ledger.Within threshold
  reported : ∀ s ∈ b.trades.map Trade.symbol,
    |drift a.portfolio b.portfolio b.trades s| ≤
      max threshold 0 + takenOut threshold ledger proposed s
  every : ∀ s, |drift a.portfolio b.portfolio b.trades s| ≤
    2 * max threshold 0 + takenOut threshold ledger proposed s
  /-- The dollars that are taken out of the buys. -/
  taken : (proposed.map fun t => takenOut threshold ledger proposed t.symbol * t.price).sum ≤
    smallDollars threshold (sellsOf (netted ledger proposed))

variable [IsStrictOrderedRing α] {config : BacktestConfig α} {threshold : α} {start : Portfolio α}

theorem explained {a b : Sample α} {ledger ledger' : ExcessLedger α} {proposed : List (Trade α)}
    (hledger : ledger.Within threshold)
    (proposes : diff a.portfolio b.portfolio b.prices = .ok proposed)
    (keeps : filterSmall threshold ledger proposed = (b.trades, ledger')) :
    Explained threshold ledger proposed a b := by
  have hkeeps : b.trades = (filterSmall threshold ledger proposed).1 := by rw [keeps]
  refine ⟨proposes, hkeeps, hledger, ?_, ?_, sum_takenOut_le (nodup_symbols_diff proposes)⟩
  · intro s hs
    rw [hkeeps] at hs ⊢
    exact abs_drift_le_of_kept proposes hledger hs
  · intro s
    rw [hkeeps]
    exact abs_drift_le proposes hledger s

theorem Filtered.exists_explained {samples : List (Sample α)} {calls : List (List (Trade α))}
    {ledger : ExcessLedger α} (h : Filtered threshold start samples calls ledger)
    {before after : List (Sample α)} {a b : Sample α} (hs : samples = before ++ a :: b :: after) :
    ∃ calls ledger proposed, Filtered threshold start (before ++ [a]) calls ledger ∧
      Explained threshold ledger proposed a b := by
  induction h generalizing after with
  | start => simp at hs
  | @sample samples calls ledger ledger' b' proposed hbefore proposes keeps ih =>
    rcases List.eq_nil_or_concat after with rfl | ⟨after, c, rfl⟩
    · have hlast : samples ++ [b'] = (before ++ [a]) ++ [b] := by simpa using hs
      obtain ⟨rfl, hb⟩ := List.append_inj' hlast rfl
      obtain rfl := List.singleton_injective hb
      have hheld : heldAfter start (before ++ [a]) = a.portfolio := by simp [heldAfter]
      rw [hheld] at proposes
      exact ⟨calls, ledger, proposed, hbefore, explained hbefore.within proposes keeps⟩
    · have hlast : samples ++ [b'] = (before ++ a :: b :: after) ++ [c] := by simpa using hs
      exact ih (List.append_inj' hlast rfl).1

/-- **Reported trades explain reported portfolios**, but for what is held back and what small sells
take out of buys: a symbol whose trade is reported is off by what may be held back and what is taken
out of it, any other by what may be held back twice and what is taken out of it. -/
theorem trades_explain_portfolios {store : PriceStore α}
    {fundamentals : Option (FundamentalsStore α)} {formula : Formula α} {symbols : List Symbol}
    {cancelled : Bool} {report : BacktestReport α}
    (h : run store fundamentals formula symbols config cancelled = .ok report)
    {before after : List (Sample α)} {a b : Sample α}
    (hs : report.samples = before ++ a :: b :: after) : ∃ calls ledger proposed,
      Filtered config.minTradeQuantity (.ofCash config.startingCash) (before ++ [a]) calls ledger ∧
        Explained config.minTradeQuantity ledger proposed a b := by
  obtain ⟨tradingDays, scores, last, hrun⟩ := walked_of_run h
  obtain ⟨calls, hfiltered⟩ := filtered_of_foldlM hrun.walked
  rw [← hrun.samples] at hfiltered
  exact hfiltered.exists_explained hs

/-- By how much the trades of each sample, carried out on the portfolio before, miss its own. -/
def drifts (samples : List (Sample α)) (s : Symbol) : List α :=
  (samples.zip samples.tail).map fun p => drift p.1.portfolio p.2.portfolio p.2.trades s

/-- Where a tenth of a share may be held back, the dear share is sold by more without a trade, and
the sale takes the whole buy of one cheap share and a part of the buy of the other. -/
theorem run_dearShareSwings : ∃ report a b c,
    run dearShareSwings.priceStore none Scoring.priceToday ["AAPL", "GOOG", "MSFT"]
      (coarseDaily (Scoring.dayOf 3)) false = .ok report ∧ report.samples = [a, b, c] ∧
    drifts report.samples "AAPL" = [-6 / 97, 86627 / 630500] ∧
    drifts report.samples "GOOG" = [0, -893 / 125] ∧
    drifts report.samples "MSFT" = [0, -89 / 125] := by
  have hrun : (run dearShareSwings.priceStore none Scoring.priceToday ["AAPL", "GOOG", "MSFT"]
      (coarseDaily (Scoring.dayOf 3)) false).toOption.any (fun report =>
        decide (report.samples.length = 3 ∧
          drifts report.samples "AAPL" = [-6 / 97, 86627 / 630500] ∧
          drifts report.samples "GOOG" = [0, -893 / 125] ∧
          drifts report.samples "MSFT" = [0, -89 / 125])) = true := by
    decide +kernel
  obtain ⟨report, hreport, hdrifts⟩ := Except.exists_of_toOption_any hrun
  obtain ⟨hlength, hdrifts⟩ := of_decide_eq_true hdrifts
  obtain ⟨a, b, c, hsamples⟩ := List.length_eq_three.1 hlength
  exact ⟨report, a, b, c, hreport, hsamples, hdrifts⟩

/-- The three days are explained, though some share drifts by more than may be held back. -/
theorem trades_explain_dearShareSwings : ∃ report a b c,
    run dearShareSwings.priceStore none Scoring.priceToday ["AAPL", "GOOG", "MSFT"]
      (coarseDaily (Scoring.dayOf 3)) false = .ok report ∧ report.samples = [a, b, c] ∧
    ∃ calls ledger proposed, Filtered 0.1 (.ofCash 900) [a, b] calls ledger ∧
      Explained 0.1 ledger proposed b c := by
  obtain ⟨report, a, b, c, hreport, hsamples, _⟩ := run_dearShareSwings
  have hsplit : report.samples = [a] ++ b :: c :: [] := hsamples
  exact ⟨report, a, b, c, hreport, hsamples, trades_explain_portfolios hreport hsplit⟩

/-- **A trade that is not reported** may be larger than what may be held back, and so may what is
missing of one that is. -/
theorem drifts_beyond_threshold : ∃ report a b c,
    run dearShareSwings.priceStore none Scoring.priceToday ["AAPL", "GOOG", "MSFT"]
      (coarseDaily (Scoring.dayOf 3)) false = .ok report ∧ report.samples = [a, b, c] ∧
    ∀ s ∈ ["AAPL", "GOOG", "MSFT"], (coarseDaily (Scoring.dayOf 3)).minTradeQuantity <
      |(b.portfolio.tradeAll c.trades).quantity s - c.portfolio.quantity s| := by
  obtain ⟨report, a, b, c, hreport, hsamples, haapl, hgoog, hmsft⟩ := run_dearShareSwings
  have hlast : ∀ {s : Symbol} {x y : ℚ}, drifts report.samples s = [x, y] →
      (b.portfolio.tradeAll c.trades).quantity s - c.portfolio.quantity s = y := by
    intro s x y h
    rw [hsamples] at h
    exact (List.cons.inj (List.cons.inj h).2).1
  have hthreshold : (coarseDaily (Scoring.dayOf 3)).minTradeQuantity = 1 / 10 := by
    norm_num [coarseDaily]
  refine ⟨report, a, b, c, hreport, hsamples, ?_⟩
  intro s hs
  simp only [List.mem_cons, List.not_mem_nil, or_false] at hs
  rw [hthreshold]
  rcases hs with rfl | rfl | rfl
  · rw [hlast haapl]
    norm_num [abs_of_pos]
  · rw [hlast hgoog]
    norm_num [abs_of_pos]
  · rw [hlast hmsft]
    norm_num [abs_of_pos]

end Backtest

end FactorPortfolio
