import Mathlib.Tactic.NormNum
import FactorPortfolio.Proofs.Backtest.Days
import FactorPortfolio.Proofs.Portfolio.Worth
import FactorPortfolio.Proofs.Scoring.Batch

/-!
# The value chain of a backtest

In exact arithmetic the value of a sample is what the portfolio of the sample before it is worth at
the prices of the day, however many days are skipped in between, and the first is the cash that the
run starts with.  A rebalance itself changes what is held by no more than the rounding of its parts:
`value_chain`.  The invariant of the run is `Chained`.
-/

namespace FactorPortfolio.Backtest

variable {α : Type} [Field α] [LinearOrder α] [FloorRing α] [InexactFunctions α]
  {config : BacktestConfig α}

/-- One sample follows another: it is worth what the other one holds. -/
def Follows (a b : Sample α) : Prop :=
  (∀ e ∈ a.portfolio.positions.entries, b.prices.contains e.1 = true) ∧
    b.totalValue = a.portfolio.worth b.prices

/-- A sample holds what it is worth, all of it invested, but for the rounding of its parts. -/
def Invested (numTickers : Nat) (a : Sample α) : Prop :=
  a.portfolio.cash = 0 ∧ ∃ value, a.portfolio.totalValue a.prices = .ok value ∧
    |value - a.totalValue| ≤ numTickers * 0.0005

/-- The samples so far are linked, and the portfolio is that of the last one. -/
structure Chained (config : BacktestConfig α) (s : State α) : Prop where
  first : ∀ a ∈ s.samples.head?, a.totalValue = config.startingCash
  linked : s.samples.IsChain Follows
  invested : ∀ a ∈ s.samples, Invested config.numTickers a
  held : s.portfolio = (s.samples.getLast?.map Sample.portfolio).getD (.ofCash config.startingCash)

theorem chained_start : Chained config (.start config.startingCash) where
  first := by
    intro a ha
    cases ha
  linked := .nil
  invested := by
    intro a ha
    cases ha
  held := rfl

theorem Chained.value_of_nil {s : State α} (h : Chained config s) (hs : s.samples = [])
    {prices : Table Symbol α} {value : α}
    (hvalue : s.portfolio.cash + s.portfolio.worth prices = value) :
    value = config.startingCash := by
  have hheld : s.portfolio = .ofCash config.startingCash := by
    rw [h.held, hs]
    rfl
  rw [hheld] at hvalue
  rw [← hvalue]
  exact add_zero config.startingCash

theorem Chained.value_of_getLast? {s : State α} (h : Chained config s) {a : Sample α}
    (ha : s.samples.getLast? = some a) {prices : Table Symbol α} {value : α}
    (hpriced : ∀ e ∈ s.portfolio.positions.entries, prices.contains e.1 = true)
    (hvalue : s.portfolio.cash + s.portfolio.worth prices = value) :
    (∀ e ∈ a.portfolio.positions.entries, prices.contains e.1 = true) ∧
      value = a.portfolio.worth prices := by
  have hheld : s.portfolio = a.portfolio := by
    rw [h.held, ha]
    rfl
  obtain ⟨hcash, _⟩ := h.invested a (List.mem_of_getLast? ha)
  rw [hheld] at hpriced hvalue
  exact ⟨hpriced, by rw [← hvalue, hcash, zero_add]⟩

variable [IsStrictOrderedRing α]

theorem invested_of_computed (hpolicy : config.weighting.Admissible) {date : Date}
    {scores prices : Table Symbol α} {value : α} {target : Target α} {kept : List (Trade α)}
    (h : Target.Computed date scores prices config.numTickers value config.weighting target) :
    Invested config.numTickers
      ⟨date, target.portfolio, value, target.weights, target.scores, kept, prices⟩ := by
  obtain ⟨hcash, htotal⟩ := h.totalValue_eq
  exact ⟨hcash, target.portfolio.worth prices, htotal, h.abs_worth_sub_le hpolicy⟩

/-- **A day keeps the samples linked.** -/
theorem Chained.step (hpolicy : config.weighting.Admissible) {s s' : State α} (h : Chained config s)
    {date : Date} {prices : Table Symbol α} {value : α} {result : ScoreResult α}
    (hvalue : holdingValue s.portfolio prices date = .ok value)
    (hday : DayStep config s date prices value result s') : Chained config s' := by
  cases hday with
  | skipped failed => exact ⟨h.first, h.linked, h.invested, h.held⟩
  | rebalanced computed diff filtered =>
    obtain ⟨hpriced, hworth⟩ := Portfolio.holdingValue_eq_ok_iff.1 hvalue
    constructor
    case first =>
      intro a ha
      rw [List.head?_append, Option.mem_def, Option.or_eq_some_iff] at ha
      rcases ha with ha | ⟨hnone, ha⟩
      · exact h.first a ha
      · cases ha
        exact h.value_of_nil (List.head?_eq_none_iff.1 hnone) hworth
    case linked =>
      refine List.isChain_append.2 ⟨h.linked, .singleton _, ?_⟩
      intro a ha b hb
      cases hb
      exact h.value_of_getLast? ha hpriced hworth
    case invested =>
      intro a ha
      rcases List.mem_append.1 ha with ha | ha
      · exact h.invested a ha
      · rw [List.mem_singleton.1 ha]
        exact invested_of_computed hpolicy computed
    case held => simp

/-- **No value enters or leaves a run**: its first sample is worth the cash that it starts with,
each later one what the sample before it holds, and a rebalance changes a value by no more than the
rounding of the parts. -/
theorem value_chain {store : PriceStore α} {fundamentals : Option (FundamentalsStore α)}
    {formula : Formula α} {symbols : List Symbol} {cancelled : Bool} {report : BacktestReport α}
    (h : run store fundamentals formula symbols config cancelled = .ok report)
    (hpolicy : config.weighting.Admissible) :
    (∀ a ∈ report.samples.head?, a.totalValue = config.startingCash) ∧
      report.samples.IsChain Follows ∧ ∀ a ∈ report.samples, Invested config.numTickers a := by
  obtain ⟨tradingDays, scores, last, hrun⟩ := walked_of_run h
  have hlast : Chained config last := by
    refine Except.foldlM_induction ?_ hrun.walked chained_start
    intro s date s' hs hday
    obtain ⟨prices, value, result, _, hvalue, _, hstep⟩ := dayStep_of_day hday
    exact hs.step hpolicy hvalue hstep
  rw [hrun.samples]
  exact ⟨hlast.first, hlast.linked, hlast.invested⟩

def threeDays : MemoryStore ℚ :=
  Scoring.shares 3 [("AAPL", 1, 100), ("GOOG", 1, 200), ("MSFT", 1, 300), ("AAPL", 2, 110),
    ("GOOG", 2, 210), ("MSFT", 2, 310), ("AAPL", 3, 90), ("GOOG", 3, 205), ("MSFT", 3, 320)]

def tiltedDaily : BacktestConfig ℚ :=
  ⟨Scoring.dayOf 1, Scoring.dayOf 3, 1, 1000, 3, 0.0001, .zScoreTilt 0.5, 1⟩

/-- The values of the three days are linked. -/
theorem value_chain_threeDays : ∃ report,
    run threeDays.priceStore none Scoring.priceToday ["AAPL", "GOOG", "MSFT"] tiltedDaily false =
      .ok report ∧ report.samples.length = 3 ∧
    (∀ a ∈ report.samples.head?, a.totalValue = 1000) ∧ report.samples.IsChain Follows ∧
    ∀ a ∈ report.samples, Invested 3 a := by
  have hrun : (run threeDays.priceStore none Scoring.priceToday ["AAPL", "GOOG", "MSFT"]
      tiltedDaily false).toOption.any
        (fun report => decide (report.samples.length = 3)) = true := by
    decide +kernel
  obtain ⟨report, hreport, hlength⟩ := Except.exists_of_toOption_any hrun
  have hpolicy : tiltedDaily.weighting.Admissible := by
    show (0.0 : ℚ) < 0.5 ∧ (0.5 : ℚ) ≤ 1.0
    norm_num
  exact ⟨report, hreport, of_decide_eq_true hlength, value_chain hreport hpolicy⟩

end FactorPortfolio.Backtest
