import Mathlib.Algebra.BigOperators.Group.Finset.Basic
import Mathlib.Tactic.NormNum
import FactorPortfolio.Proofs.Portfolio.Traded
import FactorPortfolio.Proofs.Portfolio.Worth
import FactorPortfolio.Proofs.Rebalance.Plan
import FactorPortfolio.Proofs.Trades.Netting

/-!
# Plans finance themselves

In exact arithmetic the trades to a target are worth what the target is worth above what is held
(`worth_sub_worth`), and with prices above zero the filter moves no dollars in or out of them
(`Trade.dollars_filterSmall`).  So the trades of a plan, with what the ledger grows by, use up the
cash, but for the rounding of the parts of the target.  A plan that fails leaves the ledger as it
was: `self_financing`.
-/

namespace FactorPortfolio

/-! ### Prices above zero -/

section

variable {α : Type} [Zero α] [LT α]

structure Loader.PricesPositive (l : Loader α) : Prop where
  stored {symbols : List Symbol} {date : Date} {prices : Table Symbol α} {symbol : Symbol} {x : α} :
    l.prices.pricesOn symbols date = .ok prices → prices.get? symbol = some x → 0 < x
  quoted {symbols : List Symbol} {quotes : Table Symbol (Quote α)} {symbol : Symbol}
    {q : Quote α} : l.quotesFor symbols = .ok quotes → quotes.get? symbol = some q → 0 < q.price

namespace MemoryStore

theorem pricesPositive (s : MemoryStore α)
    (hprices : ∀ series ∈ s.prices.values, ∀ x ∈ series.values, 0 < x)
    (hquotes : ∀ q ∈ s.quotes.values, 0 < q.price) (fundamentals : Option (FundamentalsStore α)) :
    Loader.PricesPositive ⟨s.priceStore, fundamentals, some s.quoteSource⟩ where
  stored {symbols date prices symbol x} h hx := by
    obtain ⟨_, hx⟩ := (s.keeps_priceStore.pricesOn _ _ _ h symbol x).1 hx
    rw [series] at hx
    cases hseries : s.prices.get? symbol with
    | none =>
      rw [hseries] at hx
      cases hx
    | some series =>
      rw [hseries] at hx
      exact hprices series (List.mem_map_of_mem (Table.get?_eq_some_iff.1 hseries)) x
        (List.mem_map_of_mem (Table.get?_eq_some_iff.1 hx))
  quoted {symbols quotes symbol q} h hq := by
    obtain ⟨_, rfl⟩ := s.guarded_eq_ok_iff.1 h
    obtain ⟨_, hq⟩ := (Table.get?_ofList_filterMap s.quotes.get? symbols symbol q).1 hq
    exact hquotes q (List.mem_map_of_mem (Table.get?_eq_some_iff.1 hq))

end MemoryStore

namespace Rebalancer

variable {r : Rebalancer α} {symbols : List Symbol} {day : DayPrices α}

theorem price_pos (h : r.loader.PricesPositive) (hday : r.currentPrices symbols = .ok day)
    {symbol : Symbol} {x : α} (hx : day.prices.get? symbol = some x) : 0 < x := by
  obtain ⟨stored, prices, quotes, _, hprices, hquotes, rfl⟩ := currentPrices_eq_ok_iff.1 hday
  rw [get?_quoted, Option.or_eq_some_iff] at hx
  rcases hx with hx | ⟨_, hx⟩
  · obtain ⟨q, hq, rfl⟩ := Option.map_eq_some_iff.1 hx
    exact h.quoted hquotes (Option.filter_eq_some_iff.1 hq).1
  · exact h.stored hprices hx

end Rebalancer

end

variable {α : Type} [Field α] [LinearOrder α] [FloorRing α] [InexactFunctions α]

/-! ### What a change of holdings is worth -/

namespace Portfolio

variable {prices : Table Symbol α} {current target : Portfolio α} {trades : List (Trade α)}

/-- What is held may be counted over any symbols that the positions are among. -/
theorem worth_eq_sum {p : Portfolio α} {S : Finset Symbol} (h : ∀ s ∈ p.positions.keys, s ∈ S) :
    p.worth prices = ∑ s ∈ S, p.quantity s * (prices.get? s).getD 0 := by
  have hkeys : p.worth prices =
      (p.positions.keys.map fun s => p.quantity s * (prices.get? s).getD 0).sum := by
    rw [worth, Table.keys, List.map_map]
    refine congrArg List.sum (List.map_congr_left fun e he => ?_)
    show _ = p.quantity e.1 * _
    rw [quantity, Table.get?_eq_some_iff.2 he, Option.getD_some]
  have hnodup : p.positions.keys.Nodup := p.positions.nodup_keys
  rw [hkeys, ← List.sum_toFinset _ hnodup]
  refine Finset.sum_subset (fun s hs => h s (List.mem_toFinset.1 hs)) fun s _ hs => ?_
  rw [Trade.quantity_eq_zero fun hmem => hs (List.mem_toFinset.2 hmem), zero_mul]

/-- **The trades are worth what the target is worth above what is held.** -/
theorem worth_sub_worth (h : Trade.diff current target prices = .ok trades) :
    target.worth prices - current.worth prices = Trade.dollars trades := by
  have hprice : ∀ t ∈ trades, (target.quantity t.symbol - current.quantity t.symbol) *
      (prices.get? t.symbol).getD 0 = t.quantity * t.price := by
    intro t ht
    obtain ⟨hquantity, _, hprice⟩ := (Trade.mem_diff_iff h).1 ht
    rw [hquantity, hprice, Option.getD_some]
  let held := (current.positions.keys ++ target.positions.keys).toFinset
  let traded := (trades.map Trade.symbol).toFinset
  rw [worth_eq_sum (S := held ∪ traded) fun s hs => by simp [held, hs],
    worth_eq_sum (S := held ∪ traded) fun s hs => by simp [held, hs], ← Finset.sum_sub_distrib]
  simp only [← sub_mul]
  -- what is not traded is held as before
  calc _ = ∑ s ∈ traded, (target.quantity s - current.quantity s) * (prices.get? s).getD 0 := by
        refine (Finset.sum_subset Finset.subset_union_right fun s _ hs => ?_).symm
        rw [Trade.quantity_eq_of_not_mem_diff h fun hmem => hs (List.mem_toFinset.2 hmem),
          sub_self, zero_mul]
    _ = Trade.dollars trades := by
        rw [List.sum_toFinset _ (Trade.nodup_symbols_diff h), List.map_map, Trade.dollars]
        exact congrArg List.sum (List.map_congr_left hprice)

end Portfolio

/-! ### The dollars of a plan -/

namespace Rebalancer

open Scoring (priceToday)

variable {r : Rebalancer α} {formula : Formula α} {symbols : List Symbol} {current : Portfolio α}
  {minTrade : α} {ledger : ExcessLedger α} {p : RebalancePlan α}

/-- A plan that has been made of a portfolio, and the ledger that goes with it.  The quantities of
the symbols `changed` change; `invested` is what the target is worth and `held` what the positions
are worth so far. -/
structure SelfFinanced (r : Rebalancer α) (symbols : List Symbol) (current : Portfolio α)
    (ledger ledger' : ExcessLedger α) (p : RebalancePlan α) (day : DayPrices α)
    (changed : Finset Symbol) (invested held : α) : Prop where
  prices : r.currentPrices symbols = .ok day
  mem_changed : ∀ s, s ∈ changed ↔ p.target.portfolio.quantity s ≠ current.quantity s
  priced : ∀ s ∈ changed, ∃ x, day.prices.get? s = some x ∧ 0 < x
  traded : ∀ t ∈ p.trades, t.symbol ∈ changed ∧ day.prices.get? t.symbol = some t.price
  invested_eq : p.target.portfolio.totalValue day.prices = .ok invested
  held_eq : current.totalValue day.prices = .ok (current.cash + held)
  /-- The trades and what the ledger grows by are worth what is invested above what is held. -/
  financed : Trade.dollars p.trades + ∑ s ∈ changed,
      (ledger'.quantity s - ledger.quantity s) * (day.prices.get? s).getD 0 = invested - held
  /-- They use up the cash, but for rounding. -/
  spent : |invested - held - current.cash| ≤ r.numTickers * 0.0005
  untouched : ∀ s ∉ changed, ledger'.excess.get? s = ledger.excess.get? s

theorem ledger_of_plan_eq_error {e : RunError α} {ledger' : ExcessLedger α}
    (h : r.plan formula symbols current minTrade ledger = (.error e, ledger')) :
    ledger' = ledger := by
  rw [plan] at h
  split at h
  · exact (Prod.mk.inj h).2.symm
  · cases h

variable [IsStrictOrderedRing α]

/-- What the filter keeps of the trades to a target finances the target. -/
theorem selfFinanced_of_filter (hprices : r.loader.PricesPositive)
    (hpolicy : r.weighting.Admissible) {day : DayPrices α} {result : ScoreResult α}
    {trades : List (Trade α)} {ledger' : ExcessLedger α}
    (hparts : r.Parts formula symbols current day result p)
    (hdiff : Trade.diff current p.target.portfolio day.prices = .ok trades)
    (hkept : (p.trades, ledger') = Trade.filterSmall minTrade ledger trades) :
    r.SelfFinanced symbols current ledger ledger' p day (trades.map Trade.symbol).toFinset
      (p.target.portfolio.worth day.prices) (current.worth day.prices) := by
  have hnodup := Trade.nodup_symbols_diff hdiff
  have hprice : ∀ t ∈ trades, day.prices.get? t.symbol = some t.price :=
    fun t ht => ((Trade.mem_diff_iff hdiff).1 ht).2.2
  have hpositive : ∀ t ∈ trades, 0 < t.price :=
    fun t ht => price_pos hprices hparts.prices (hprice t ht)
  obtain ⟨hpriced, hvalue⟩ := Portfolio.holdingValue_eq_ok_iff.1 hparts.worth
  obtain ⟨htrades, hledger⟩ := Prod.ext_iff.1 hkept
  dsimp only at htrades hledger
  constructor
  case prices => exact hparts.prices
  case mem_changed =>
    intro s
    rw [List.mem_toFinset, Trade.mem_symbols_diff_iff hdiff]
  case priced =>
    intro s hs
    obtain ⟨t, ht, rfl⟩ := List.mem_map.1 (List.mem_toFinset.1 hs)
    exact ⟨t.price, hprice t ht, hpositive t ht⟩
  case traded =>
    intro b hb
    rw [htrades] at hb
    obtain ⟨t, ht, hsymbol, hsame⟩ := Trade.exists_of_mem_kept hnodup hb
    rw [← hsymbol, ← hsame, List.mem_toFinset]
    exact ⟨List.mem_map_of_mem ht, hprice t ht⟩
  case invested_eq => exact hparts.target.totalValue_eq.2
  case held_eq => exact Portfolio.totalValue_eq_ok_iff.2 ⟨hpriced, rfl⟩
  case financed =>
    rw [Portfolio.worth_sub_worth hdiff, ← Trade.dollars_filterSmall hnodup hpositive, htrades,
      hledger, List.sum_toFinset _ hnodup, List.map_map, add_right_inj]
    refine congrArg List.sum (List.map_congr_left fun t ht => ?_)
    rw [Function.comp_apply, hprice t ht, Option.getD_some]
  case spent =>
    rw [sub_sub, add_comm (current.worth day.prices), hvalue]
    exact hparts.target.abs_worth_sub_le hpolicy
  case untouched =>
    intro s hs
    rw [hledger]
    exact Trade.get?_excess_of_not_mem fun hmem => hs (List.mem_toFinset.2 hmem)

/-- **A plan finances itself, and a plan that fails touches nothing.**  The trades of a plan, with
what the ledger grows by in symbols whose quantity changes, are worth what the target is worth above
the positions so far; that is the cash, but for rounding.  Where there is no plan, the ledger is
what it was. -/
theorem self_financing (hprices : r.loader.PricesPositive) (hpolicy : r.weighting.Admissible)
    (formula : Formula α) (symbols : List Symbol) (current : Portfolio α) (minTrade : α)
    (ledger : ExcessLedger α) :
    match r.plan formula symbols current minTrade ledger with
    | (.ok p, ledger') => ∃ day changed invested held,
        r.SelfFinanced symbols current ledger ledger' p day changed invested held
    | (.error _, ledger') => ledger' = ledger := by
  rcases hplan : r.plan formula symbols current minTrade ledger with ⟨out, ledger'⟩
  cases out with
  | error e => exact ledger_of_plan_eq_error hplan
  | ok p =>
    obtain ⟨day, result, trades, hparts, hdiff, hkept⟩ := trades_of_plan (congrArg Prod.fst hplan)
    rw [hplan] at hkept
    exact ⟨day, _, _, _, selfFinanced_of_filter hprices hpolicy hparts hdiff hkept⟩

def threeQuoted : MemoryStore ℚ :=
  (Scoring.shares 3 [("AAPL", 5, 100), ("GOOG", 5, 50), ("MSFT", 5, 200)]).insertQuote "MSFT"
    ⟨250, Scoring.dayOf 8, ⟨10, 0, 0⟩⟩

def tilted : Rebalancer ℚ :=
  ⟨⟨threeQuoted.priceStore, none, some threeQuoted.quoteSource⟩, 3, .zScoreTilt 0.5⟩

def twoHeld : Portfolio ℚ := ⟨Table.ofList [("AAPL", 5), ("MSFT", 2)], 100⟩

def boughtLess : ExcessLedger ℚ := ExcessLedger.empty.carry "AAPL" 0.4

/-- A sell that is too small is taken out of two buys, of which one is left; the excess of an
earlier buy is used up.  What is left is worth the cash and that excess. -/
theorem self_financing_tilted : ∃ p ledger',
    tilted.plan priceToday ["AAPL", "GOOG", "MSFT"] twoHeld 2 boughtLess = (.ok p, ledger') ∧
    p.trades.map Trade.symbol = ["GOOG"] ∧ ledger'.excess.entries = [] ∧
    ∃ day changed invested held, tilted.SelfFinanced ["AAPL", "GOOG", "MSFT"] twoHeld boughtLess
      ledger' p day changed invested held := by
  have hpositive : tilted.loader.PricesPositive :=
    threeQuoted.pricesPositive (by decide +kernel) (by decide +kernel) none
  have hpolicy : tilted.weighting.Admissible := by
    show (0.0 : ℚ) < 0.5 ∧ (0.5 : ℚ) ≤ 1.0
    norm_num
  have hkept : (tilted.plan priceToday ["AAPL", "GOOG", "MSFT"] twoHeld 2 boughtLess).1.toOption.any
      (fun p => decide (p.trades.map Trade.symbol = ["GOOG"])) = true := by
    decide +kernel
  have hexcess : (tilted.plan priceToday ["AAPL", "GOOG", "MSFT"] twoHeld 2
      boughtLess).2.excess.entries = [] := by
    decide +kernel
  have hfinanced := self_financing hpositive hpolicy priceToday ["AAPL", "GOOG", "MSFT"] twoHeld 2
    boughtLess
  obtain ⟨p, hp, hsymbols⟩ := Except.exists_of_toOption_any hkept
  generalize tilted.plan priceToday ["AAPL", "GOOG", "MSFT"] twoHeld 2 boughtLess = planned at *
  obtain ⟨out, ledger'⟩ := planned
  obtain rfl : out = .ok p := hp
  exact ⟨p, ledger', rfl, of_decide_eq_true hsymbols, hexcess, hfinanced⟩

end Rebalancer

end FactorPortfolio
