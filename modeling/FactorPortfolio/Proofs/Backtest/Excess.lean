import Mathlib.Tactic.NormNum
import FactorPortfolio.Proofs.Backtest.ValueChain
import FactorPortfolio.Proofs.Portfolio.Traded
import FactorPortfolio.Proofs.Trades.Ledger

/-!
# The excess stays small

Calls of the filter one after the other, each from the ledger of the call before, never let an entry
of the ledger grow above the threshold (`Trade.held_filterEach`).  The rebalances of a backtest are
such calls, on the trades from each portfolio to the next (`Filtered`, `filtered_step`).  So the
excess stays small over every run: `bounded_excess`.
-/

namespace FactorPortfolio

variable {α : Type} [Field α] [LinearOrder α] [FloorRing α] [InexactFunctions α]

namespace Trade

/-- What the calls on some lists of trades give, each from the ledger that the one before leaves. -/
def filterEach (threshold : α) : ExcessLedger α → List (List (Trade α)) →
    List (List (Trade α) × ExcessLedger α)
  | _, [] => []
  | ledger, trades :: rest =>
    filterSmall threshold ledger trades ::
      filterEach threshold (filterSmall threshold ledger trades).2 rest

def ledgerAfter (threshold : α) (ledger : ExcessLedger α) (calls : List (List (Trade α))) :
    ExcessLedger α :=
  calls.foldl (fun ledger trades => (filterSmall threshold ledger trades).2) ledger

variable {threshold : α}

theorem filterEach_append (ledger : ExcessLedger α) (calls : List (List (Trade α)))
    (trades : List (Trade α)) : filterEach threshold ledger (calls ++ [trades]) =
      filterEach threshold ledger calls ++
        [filterSmall threshold (ledgerAfter threshold ledger calls) trades] := by
  induction calls generalizing ledger with
  | nil => rfl
  | cons call calls ih => rw [List.cons_append, filterEach, ih]; rfl

theorem ledgerAfter_append (ledger : ExcessLedger α) (calls : List (List (Trade α)))
    (trades : List (Trade α)) : ledgerAfter threshold ledger (calls ++ [trades]) =
      (filterSmall threshold (ledgerAfter threshold ledger calls) trades).2 := by
  simp [ledgerAfter]

/-- **No call lets an entry grow above the threshold.** -/
theorem held_filterEach {ledger : ExcessLedger α} (hledger : ledger.Within threshold)
    {calls : List (List (Trade α))} (hcalls : ∀ trades ∈ calls, (trades.map symbol).Nodup) :
    List.Forall₂ (Held threshold) calls (filterEach threshold ledger calls) := by
  induction calls generalizing ledger with
  | nil => exact .nil
  | cons call calls ih =>
    obtain ⟨hcall, hcalls⟩ := List.forall_mem_cons.1 hcalls
    have hheld := held_filterSmall hcall hledger
    exact .cons hheld (ih hheld.within hcalls)

theorem within_ledgerAfter {ledger : ExcessLedger α} (hledger : ledger.Within threshold)
    {calls : List (List (Trade α))} (hcalls : ∀ trades ∈ calls, (trades.map symbol).Nodup) :
    (ledgerAfter threshold ledger calls).Within threshold := by
  induction calls generalizing ledger with
  | nil => exact hledger
  | cons call calls ih =>
    obtain ⟨hcall, hcalls⟩ := List.forall_mem_cons.1 hcalls
    exact ih (held_filterSmall hcall hledger).within hcalls

end Trade

namespace Backtest

open Trade

def heldAfter (start : Portfolio α) (samples : List (Sample α)) : Portfolio α :=
  (samples.getLast?.map Sample.portfolio).getD start

/-- Samples and a ledger come of calls of the filter: the trades of each sample are what it keeps of
those from the portfolio before, and each call goes on from the ledger of the call before. -/
inductive Filtered (threshold : α) (start : Portfolio α) :
    List (Sample α) → List (List (Trade α)) → ExcessLedger α → Prop
  | start : Filtered threshold start [] [] .empty
  | sample {samples : List (Sample α)} {calls : List (List (Trade α))}
      {ledger ledger' : ExcessLedger α} {b : Sample α} {proposed : List (Trade α)}
      (before : Filtered threshold start samples calls ledger)
      (proposes : diff (heldAfter start samples) b.portfolio b.prices = .ok proposed)
      (keeps : filterSmall threshold ledger proposed = (b.trades, ledger')) :
      Filtered threshold start (samples ++ [b]) (calls ++ [proposed]) ledger'

variable {config : BacktestConfig α} {threshold : α} {start : Portfolio α}
  {samples : List (Sample α)} {calls : List (List (Trade α))} {ledger : ExcessLedger α}

namespace Filtered

theorem distinct (h : Filtered threshold start samples calls ledger) :
    ∀ trades ∈ calls, (trades.map Trade.symbol).Nodup := by
  induction h with
  | start =>
    intro trades ht
    cases ht
  | sample _ proposes _ ih =>
    intro trades ht
    rcases List.mem_append.1 ht with ht | ht
    · exact ih trades ht
    · rw [List.mem_singleton.1 ht]
      exact nodup_symbols_diff proposes

theorem eq_ledgerAfter (h : Filtered threshold start samples calls ledger) :
    ledger = ledgerAfter threshold .empty calls := by
  induction h with
  | start => rfl
  | sample _ _ keeps ih => rw [ledgerAfter_append, ← ih, keeps]

theorem map_trades (h : Filtered threshold start samples calls ledger) :
    samples.map Sample.trades = (filterEach threshold .empty calls).map Prod.fst := by
  induction h with
  | start => rfl
  | sample before _ keeps ih =>
    rw [filterEach_append, List.map_append, List.map_append, ih, ← before.eq_ledgerAfter, keeps]
    rfl

theorem within (h : Filtered threshold start samples calls ledger) : ledger.Within threshold := by
  rw [h.eq_ledgerAfter]
  exact within_ledgerAfter (ExcessLedger.within_empty _) h.distinct

end Filtered

/-- **A day is one call more, or none.** -/
theorem filtered_step {s s' : State α} (hheld : s.portfolio = heldAfter start s.samples)
    (h : Filtered config.minTradeQuantity start s.samples calls s.ledger) {date : Date}
    {prices : Table Symbol α} {value : α} {result : ScoreResult α}
    (hday : DayStep config s date prices value result s') :
    s'.portfolio = heldAfter start s'.samples ∧
      ∃ calls', Filtered config.minTradeQuantity start s'.samples calls' s'.ledger := by
  cases hday with
  | skipped failed => exact ⟨hheld, calls, h⟩
  | rebalanced computed proposes keeps =>
    rw [hheld] at proposes
    exact ⟨by simp [heldAfter], _, h.sample proposes keeps⟩

theorem filtered_of_foldlM {store : PriceStore α} {symbols : List Symbol} {scores : DailyScores α}
    {days : List Date} {s : State α} {cash : α}
    (h : days.foldlM (day store symbols config scores) (.start cash) = .ok s) :
    ∃ calls, Filtered config.minTradeQuantity (.ofCash cash) s.samples calls s.ledger := by
  have hreached := Except.foldlM_induction
    (P := fun s => s.portfolio = heldAfter (.ofCash cash) s.samples ∧
      ∃ calls, Filtered config.minTradeQuantity (.ofCash cash) s.samples calls s.ledger)
    ?_ h ⟨rfl, [], .start⟩
  · exact hreached.2
  · intro s date s' hs hday
    obtain ⟨hheld, calls, hs⟩ := hs
    obtain ⟨prices, value, result, _, _, _, hstep⟩ := dayStep_of_day hday
    exact filtered_step hheld hs hstep

/-- Samples and a ledger come of calls of the filter, each of which keeps large trades only, and no
entry of the ledger is zero or above the threshold. -/
def Bounded (threshold : α) (start : Portfolio α) (samples : List (Sample α))
    (ledger : ExcessLedger α) : Prop :=
  ledger.Within threshold ∧ ∃ calls, Filtered threshold start samples calls ledger ∧
    samples.map Sample.trades = (filterEach threshold .empty calls).map Prod.fst ∧
    ledger = ledgerAfter threshold .empty calls ∧
    List.Forall₂ (Held threshold) calls (filterEach threshold .empty calls)

theorem Filtered.bounded (h : Filtered threshold start samples calls ledger) :
    Bounded threshold start samples ledger :=
  ⟨h.within, calls, h, h.map_trades, h.eq_ledgerAfter,
    held_filterEach (ExcessLedger.within_empty _) h.distinct⟩

/-- **The excess stays small.**  Whatever lists of trades of distinct symbols the filter is called
on, one after the other, no call keeps a small trade or lets an entry of the ledger grow above the
threshold.  The days of a backtest are such calls, however many of them have been walked, and so is
what a run reports. -/
theorem bounded_excess :
    (∀ (threshold : α) (calls : List (List (Trade α))),
      (∀ trades ∈ calls, (trades.map Trade.symbol).Nodup) →
        List.Forall₂ (Held threshold) calls (filterEach threshold .empty calls)) ∧
    (∀ (store : PriceStore α) (symbols : List Symbol) (config : BacktestConfig α)
      (scores : DailyScores α) (days : List Date) (s : State α),
      days.foldlM (day store symbols config scores) (.start config.startingCash) = .ok s →
        Bounded config.minTradeQuantity (.ofCash config.startingCash) s.samples s.ledger) ∧
    ∀ (store : PriceStore α) (fundamentals : Option (FundamentalsStore α)) (formula : Formula α)
      (symbols : List Symbol) (config : BacktestConfig α) (cancelled : Bool)
      (report : BacktestReport α),
      run store fundamentals formula symbols config cancelled = .ok report →
        Bounded config.minTradeQuantity (.ofCash config.startingCash) report.samples
          report.excess := by
  refine ⟨fun _ _ hcalls => held_filterEach (ExcessLedger.within_empty _) hcalls, ?_, ?_⟩
  · intro store symbols config scores days s h
    obtain ⟨calls, hfiltered⟩ := filtered_of_foldlM h
    exact hfiltered.bounded
  · intro store fundamentals formula symbols config cancelled report h
    obtain ⟨tradingDays, scores, last, hrun⟩ := walked_of_run h
    obtain ⟨calls, hfiltered⟩ := filtered_of_foldlM hrun.walked
    rw [hrun.samples, hrun.excess]
    exact hfiltered.bounded

/-- A dear share that falls and rises again, beside two cheap ones. -/
def dearShareSwings : MemoryStore ℚ :=
  Scoring.shares 3 [("AAPL", 1, 100), ("GOOG", 1, 1), ("MSFT", 1, 1), ("AAPL", 2, 97),
    ("GOOG", 2, 1), ("MSFT", 2, 1), ("AAPL", 3, 104), ("GOOG", 3, 1), ("MSFT", 3, 1)]

/-- A rebalance a day to equal parts, which holds back trades of up to a tenth of a share. -/
def coarseDaily (stop : Date) : BacktestConfig ℚ :=
  ⟨Scoring.dayOf 1, stop, 1, 900, 3, 0.1, .equal, 1⟩

/-- Two buys that are small one by one; and a run that holds back a buy of the dear share. -/
theorem bounded_excess_dearShareSwings :
    List.Forall₂ (Held (2 : ℚ)) [[⟨"GOOG", 1.5, 1⟩], [⟨"GOOG", 1, 1⟩]]
      (filterEach 2 .empty [[⟨"GOOG", 1.5, 1⟩], [⟨"GOOG", 1, 1⟩]]) ∧
    ∃ report, run dearShareSwings.priceStore none Scoring.priceToday ["AAPL", "GOOG", "MSFT"]
        (coarseDaily (Scoring.dayOf 2)) false = .ok report ∧
      report.excess.quantity "AAPL" = 6 / 97 ∧
      Bounded 0.1 (.ofCash 900) report.samples report.excess := by
  obtain ⟨hcalls, _, hruns⟩ := bounded_excess (α := ℚ)
  have hrun : (run dearShareSwings.priceStore none Scoring.priceToday ["AAPL", "GOOG", "MSFT"]
      (coarseDaily (Scoring.dayOf 2)) false).toOption.any
        (fun report => decide (report.excess.quantity "AAPL" = 6 / 97)) = true := by
    decide +kernel
  obtain ⟨report, hreport, hexcess⟩ := Except.exists_of_toOption_any hrun
  exact ⟨hcalls 2 _ (by simp), report, hreport, of_decide_eq_true hexcess,
    hruns _ _ _ _ _ _ report hreport⟩

end Backtest

end FactorPortfolio
