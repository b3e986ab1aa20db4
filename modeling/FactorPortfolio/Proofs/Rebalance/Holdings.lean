import FactorPortfolio.Proofs.Portfolio.Traded
import FactorPortfolio.Proofs.Rebalance.Plan
import FactorPortfolio.Proofs.Scalar.Value
import FactorPortfolio.Proofs.Weighting.Selection

/-!
# The latest holdings are those of a plan

The latest holdings and a plan both take the latest trading day, its prices and its scores to a
target, the one for a fixed value and the other for what the current portfolio is worth.  Without
quotes and from cash alone, which is worth itself, the plan differs in that value and in the trades
to its target.  The value does not matter as long as it is enough (`Target.related_compute`), and
what a target holds has a price, so that there always are trades
(`Target.Computed.exists_diff_ofCash`).  Hence the two come to the same
(`related_holdings_propose`), for any cash that is finite and above the least value:
`holdings_agree`.
-/

namespace FactorPortfolio

variable {α : Type} [Scalar α]

/-- The holdings have the date of a plan, and the weights and scores of its target. -/
structure LatestHoldings.Agrees (h : LatestHoldings α) (p : RebalancePlan α) : Prop where
  date : h.date = p.date
  weights : (h.assets.map fun _ asset => asset.weight) = p.target.weights
  scores : (h.assets.map fun _ asset => asset.score) = p.target.scores

/-! ### What is known of a target -/

namespace Target.Computed

variable {date : Date} {scores prices : Table Symbol α} {numTickers : Nat} {value : α}
  {policy : WeightingPolicy α} {target : Target α}

theorem map_weights_eq_scores (h : Computed date scores prices numTickers value policy target)
    (default : α) : (target.weights.map fun symbol _ => (target.scores.get? symbol).getD default) =
      target.scores := by
  refine Table.ext_get? fun symbol => ?_
  rw [Table.get?_map, h.scores_eq, Table.get?_filter]
  cases hweight : target.weights.get? symbol with
  | none =>
    have hcontains : target.weights.contains symbol = false := by rw [Table.contains, hweight]; rfl
    cases scores.get? symbol <;> simp [hcontains]
  | some weight =>
    have hcontains : target.weights.contains symbol = true := by rw [Table.contains, hweight]; rfl
    have hscored := Weighting.mem_keys_of_weights h.weights (Table.mem_keys_iff.2 hcontains)
    rw [Table.mem_keys_iff, Table.contains, Option.isSome_iff_exists] at hscored
    obtain ⟨score, hscore⟩ := hscored
    rw [hscore, hcontains, Option.filter_some_pos rfl]
    rfl

theorem exists_diff_ofCash (h : Computed date scores prices numTickers value policy target)
    (cash : α) : ∃ trades, Trade.diff (.ofCash cash) target.portfolio prices = .ok trades := by
  refine Trade.exists_diff_of_priced fun symbol hheld => ?_
  obtain ⟨position, hposition, rfl⟩ := List.mem_map.1 (hheld.resolve_left nofun)
  rw [h.positions, List.mem_filterMap] at hposition
  obtain ⟨e, he, hposition⟩ := hposition
  obtain ⟨price, hprice, _⟩ := h.priced e he
  exact ⟨price, by rw [symbol_of_position? hposition, hprice]⟩

end Target.Computed

namespace Rebalancer

open Scoring (priceToday)

variable {r : Rebalancer α} {cash : α}

omit [Scalar α] in
theorem currentPrices_of_no_quotes (h : r.loader.quotes = none) (symbols : List Symbol) :
    r.currentPrices symbols = (do
      let stored ← r.latestDay
      let prices ← liftStore (r.loader.prices.pricesOn symbols stored)
      return ⟨stored, prices⟩) := by
  rw [currentPrices, h]

theorem latestTarget_of_no_quotes (h : r.loader.quotes = none) (formula : Formula α)
    (symbols : List Symbol) : r.latestTarget formula symbols = (do
      let date ← r.latestDay
      let prices ← liftStore (r.loader.prices.pricesOn symbols date)
      let result ← scoreDay r.loader formula symbols date
      (Target.compute date result.scores prices r.numTickers holdingsValue r.weighting).mapError
        .target) := by
  have hstored : ({ r.loader with quotes := none } : Loader α) = r.loader := by rw [← h]
  rw [latestTarget, hstored]

/-- **The holdings and a plan from cash come to the same**, where both values are enough. -/
theorem related_holdings_propose (hquotes : r.loader.quotes = none)
    (hholdings : Target.IsEnough (holdingsValue : α)) (hcash : Target.IsEnough cash)
    (formula : Formula α) (symbols : List Symbol) :
    Except.Related LatestHoldings.Agrees (r.latestHoldings formula symbols)
      (r.propose formula symbols (.ofCash cash)) := by
  rw [latestHoldings, latestTarget_of_no_quotes hquotes, propose,
    currentPrices_of_no_quotes hquotes]
  simp only [bind_assoc, pure_bind]
  -- both take the day, its prices and its scores in the same way
  refine Except.related_bind_left fun date _ => ?_
  refine Except.related_bind_left fun prices _ => ?_
  refine Except.related_bind_left fun result _ => ?_
  have hworth : Backtest.holdingValue (.ofCash cash) prices date = .ok cash := rfl
  rw [hworth]
  have htargets := Target.related_compute hholdings hcash date result.scores prices r.numTickers
    r.weighting
  refine (htargets.mapError RunError.target).bind ?_
  rintro t t' ht ht' ⟨hdate, hweights, hscores⟩
  have hcomputed := Target.computed_of_compute (Except.mapError_eq_ok_iff.1 ht)
  have hcomputed' := Target.computed_of_compute (Except.mapError_eq_ok_iff.1 ht')
  obtain ⟨trades, htrades⟩ := hcomputed'.exists_diff_ofCash cash
  rw [htrades]
  refine .ok ⟨hcomputed.date_eq, ?_, ?_⟩
  · refine Eq.trans (Table.ext_entries ?_) hweights
    exact (List.map_map).trans (List.map_id _)
  · refine Eq.trans (Table.ext_entries ?_) ((hcomputed.map_weights_eq_scores 0.0).trans hscores)
    exact List.map_map

theorem related_holdings_plan (hquotes : r.loader.quotes = none)
    (hholdings : Target.IsEnough (holdingsValue : α)) (hcash : Target.IsEnough cash)
    (formula : Formula α) (symbols : List Symbol) (minTrade : α) (ledger : ExcessLedger α) :
    Except.Related LatestHoldings.Agrees (r.latestHoldings formula symbols)
      (r.plan formula symbols (.ofCash cash) minTrade ledger).1 := by
  have hrelated := related_holdings_propose hquotes hholdings hcash formula symbols
  rw [plan]
  cases hproposed : r.propose formula symbols (.ofCash cash) with
  | error e =>
    rw [hproposed] at hrelated
    exact hrelated
  | ok proposed =>
    rw [hproposed] at hrelated
    generalize r.latestHoldings formula symbols = holdings at hrelated ⊢
    cases hrelated with
    | ok h => exact .ok ⟨h.date, h.weights, h.scores⟩

/-! ### In binary64 -/

theorem isEnough_of_lt {value : Float} (hfinite : Scalar.isFinite value = true)
    (h : 0.001 < value) : Target.IsEnough value := by
  obtain ⟨a, ha⟩ := Binary64.exists_value_of_isFinite hfinite
  obtain ⟨b, hb⟩ := Binary64.exists_value_of_isFinite (x := 0.001) rfl
  have hnan : Scalar.isNaN value = false := Binary64.isNaN_of_value ha
  rw [Target.IsEnough, hnan, Bool.false_or, decide_eq_true_iff]
  exact (Binary64.le_iff_of_value ha hb).not.2 ((Binary64.lt_iff_of_value hb ha).1 h).not_ge

/-- **The latest holdings are those of a plan from cash.**  Without quotes there are holdings if
and only if there is a plan, from any cash that is finite and above the least value, however small
trades are held back.  They have the same date, and the weights and the scores of the holdings are
those of the target of the plan.  If there are none the fault is the same. -/
theorem holdings_agree {r : Rebalancer Float} (hquotes : r.loader.quotes = none) {cash : Float}
    (hfinite : Scalar.isFinite cash = true) (hcash : 0.001 < cash) (formula : Formula Float)
    (symbols : List Symbol) (minTrade : Float) (ledger : ExcessLedger Float) :
    ((∃ h, r.latestHoldings formula symbols = .ok h) ↔
      ∃ p, (r.plan formula symbols (.ofCash cash) minTrade ledger).1 = .ok p) ∧
    (∀ h p, r.latestHoldings formula symbols = .ok h →
      (r.plan formula symbols (.ofCash cash) minTrade ledger).1 = .ok p →
      h.date = p.date ∧ (h.assets.map fun _ asset => asset.weight) = p.target.weights ∧
        (h.assets.map fun _ asset => asset.score) = p.target.scores) ∧
    ∀ e, r.latestHoldings formula symbols = .error e ↔
      (r.plan formula symbols (.ofCash cash) minTrade ledger).1 = .error e := by
  have hrelated := related_holdings_plan hquotes (isEnough_of_lt rfl (by decide +kernel))
    (isEnough_of_lt hfinite hcash) formula symbols minTrade ledger
  refine ⟨hrelated.exists_ok_iff, fun h p hh hp => ?_, hrelated.error_iff⟩
  have hagrees := hrelated.of_ok hh hp
  exact ⟨hagrees.date, hagrees.weights, hagrees.scores⟩

def bestOfFour : Rebalancer Float :=
  ⟨(Scoring.shares 1 [("AAPL", 5, 100), ("GOOG", 5, 50), ("MSFT", 5, 200), ("TSLA", 5, 80)]).loader,
    3, .zScoreTilt 0.5⟩

/-- The holdings are found for the fixed value, and the plan is from other cash. -/
theorem holdings_agree_bestOfFour : bestOfFour.loader.quotes = none ∧
    Scalar.isFinite (70 : Float) = true ∧ (0.001 : Float) < 70 ∧
    ∃ h p, bestOfFour.latestHoldings priceToday ["AAPL", "GOOG", "MSFT", "TSLA"] = .ok h ∧
      (bestOfFour.plan priceToday ["AAPL", "GOOG", "MSFT", "TSLA"] (.ofCash 70) 0.1 .empty).1 =
        .ok p ∧
      h.assets.keys = ["AAPL", "MSFT", "TSLA"] ∧
      h.date = p.date ∧ (h.assets.map fun _ asset => asset.weight) = p.target.weights ∧
      (h.assets.map fun _ asset => asset.score) = p.target.scores := by
  have hcash : (0.001 : Float) < 70 := by decide +kernel
  have hrun : (bestOfFour.latestHoldings priceToday
      ["AAPL", "GOOG", "MSFT", "TSLA"]).toOption.any
        (fun h => decide (h.assets.keys = ["AAPL", "MSFT", "TSLA"])) = true := by
    decide +kernel
  obtain ⟨h, hh, hkeys⟩ := Except.exists_of_toOption_any hrun
  obtain ⟨hiff, hagree, _⟩ := holdings_agree (show bestOfFour.loader.quotes = none from rfl) rfl
    hcash priceToday ["AAPL", "GOOG", "MSFT", "TSLA"] 0.1 .empty
  obtain ⟨p, hp⟩ := hiff.1 ⟨h, hh⟩
  exact ⟨rfl, rfl, hcash, h, p, hh, hp, of_decide_eq_true hkeys, hagree h p hh hp⟩

end Rebalancer

end FactorPortfolio
