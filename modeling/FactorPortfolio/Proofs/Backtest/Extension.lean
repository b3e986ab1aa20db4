import FactorPortfolio.Proofs.Backtest.RebalanceDays
import FactorPortfolio.Proofs.Backtest.ValueChain
import FactorPortfolio.Proofs.Scoring.DayByDay
import FactorPortfolio.Proofs.Store.Calendar
import Mathlib.Tactic.Common

/-!
# Extending a backtest

A backtest that ends later takes the same days up to the earlier end
(`RebalanceDays.select_eq_filter`) and scores them alike (`Scoring.get?_score_eq`), so that it walks
through the same states; and the days after only add to what is recorded (`extends_of_foldlM`).  So
it leaves the past as it was: `run_extended`.
-/

namespace FactorPortfolio

/-- A record grows by entries of some days. -/
def Grows {τ : Type} (date : τ → Date) (days : List Date) (l l' : List τ) : Prop :=
  ∃ more, l' = l ++ more ∧ ∀ a ∈ more, date a ∈ days

namespace Grows

variable {τ : Type} {date : τ → Date} {days : List Date} {l l' l'' : List τ}

theorem refl (date : τ → Date) (days : List Date) (l : List τ) : Grows date days l l :=
  ⟨[], by simp⟩

theorem snoc {a : τ} (ha : date a ∈ days) (l : List τ) : Grows date days l (l ++ [a]) :=
  ⟨[a], rfl, by simpa using ha⟩

theorem mono {days' : List Date} (h : Grows date days l l') (hdays : days ⊆ days') :
    Grows date days' l l' := by
  obtain ⟨more, hmore, hdates⟩ := h
  exact ⟨more, hmore, fun a ha => hdays (hdates a ha)⟩

theorem trans (h : Grows date days l l') (h' : Grows date days l' l'') :
    Grows date days l l'' := by
  obtain ⟨more, rfl, hdates⟩ := h
  obtain ⟨more', rfl, hdates'⟩ := h'
  refine ⟨more ++ more', List.append_assoc _ _ _, ?_⟩
  intro a ha
  rcases List.mem_append.1 ha with ha | ha
  · exact hdates a ha
  · exact hdates' a ha

/-- What grows by later days is as before up to a date. -/
theorem filter_eq {days' : List Date} {stop : Date} (h : Grows date days [] l)
    (h' : Grows date days' l l') (hdays : ∀ d ∈ days, d ≤ stop) (hdays' : ∀ d ∈ days', stop < d) :
    l'.filter (fun a => date a ≤ stop) = l := by
  obtain ⟨l, rfl, hdates⟩ := h
  obtain ⟨more, rfl, hdates'⟩ := h'
  rw [List.filter_append, List.filter_eq_self.2, List.filter_eq_nil_iff.2,
    List.append_nil]
  · intro a ha hle
    exact Date.not_lt.2 (of_decide_eq_true hle) (hdays' _ (hdates' a ha))
  · intro a ha
    exact decide_eq_true (hdays _ (hdates a ha))

end Grows

namespace Backtest

variable {α : Type}

/-- One state records what another does, and more of some days. -/
structure Extends (days : List Date) (s s' : State α) : Prop where
  samples : Grows Sample.date days s.samples s'.samples
  skipped : Grows SkippedDay.date days s.skipped s'.skipped

variable [Scalar α] {store : PriceStore α} {symbols : List Symbol} {config : BacktestConfig α}
  {scores scores' : DailyScores α}

theorem DayStep.extends {s s' : State α} {date : Date} {prices : Table Symbol α} {value : α}
    {result : ScoreResult α} (h : DayStep config s date prices value result s')
    {days : List Date} (hdate : date ∈ days) : Extends days s s' := by
  cases h with
  | rebalanced computed diff filtered => exact ⟨.snoc hdate _, .refl _ _ _⟩
  | skipped failed => exact ⟨.refl _ _ _, .snoc hdate _⟩

/-- **Days that are walked add to what is recorded**, each an entry of its own. -/
theorem extends_of_foldlM {days : List Date} {s s' : State α}
    (h : days.foldlM (day store symbols config scores) s = .ok s') : Extends days s s' := by
  induction days generalizing s with
  | nil =>
    rw [Except.pure_eq_ok_iff.1 h]
    exact ⟨.refl _ _ _, .refl _ _ _⟩
  | cons date days ih =>
    rw [List.foldlM_cons] at h
    obtain ⟨s₁, hs₁, h⟩ := Except.bind_eq_ok_iff.1 h
    obtain ⟨prices, value, result, _, _, _, hstep⟩ := dayStep_of_day hs₁
    have hfirst : Extends (date :: days) s s₁ := hstep.extends List.mem_cons_self
    have hrest := ih h
    have hsubset := List.subset_cons_self date days
    exact ⟨hfirst.samples.trans (hrest.samples.mono hsubset),
      hfirst.skipped.trans (hrest.skipped.mono hsubset)⟩

theorem day_congr {date : Date} (h : scores.get? date = scores'.get? date) (s : State α) :
    day store symbols config scores s date = day store symbols config scores' s date := by
  simp only [day, h]

theorem Walked.pairwise {fundamentals : Option (FundamentalsStore α)} {formula : Formula α}
    {cancelled : Bool} {report : BacktestReport α} {tradingDays : List Date} {last : State α}
    (h : Walked store fundamentals formula symbols config cancelled report tradingDays scores
      last) : report.rebalanceDays.Pairwise (· < ·) := by
  rw [h.rebalanceDays]
  exact RebalanceDays.select_pairwise _ _ _

/-! ### A later end -/

structure Extended (stop : Date) (report report' : BacktestReport α) : Prop where
  rebalanceDays : report.rebalanceDays = report'.rebalanceDays.filter (· ≤ stop)
  samples : report.samples = report'.samples.filter fun a => a.date ≤ stop
  skipped : report.skipped = report'.skipped.filter fun a => a.date ≤ stop

section

variable {prices : Symbol → Series α} {trades : Date → Prop}
  {fundamentals : Option (FundamentalsStore α)} {formula : Formula α} {stop : Date}
  {cancelled : Bool} {report report' : BacktestReport α} {tradingDays tradingDays' : List Date}
  {last last' : State α} (hstore : store.Keeps prices trades) (hstop : config.stop ≤ stop)
  (hrun : Walked store fundamentals formula symbols config cancelled report tradingDays scores last)
  (hrun' : Walked store fundamentals formula symbols { config with stop := stop } cancelled
    report' tradingDays' scores' last')

include hstore hstop hrun hrun'

theorem rebalanceDays_eq_filter :
    report.rebalanceDays = report'.rebalanceDays.filter (· ≤ config.stop) := by
  obtain ⟨hascending, hmem⟩ := hstore.tradingDays _ _ _ hrun.calendar
  obtain ⟨hascending', hmem'⟩ := hstore.tradingDays _ _ _ hrun'.calendar
  rw [hrun.rebalanceDays, hrun'.rebalanceDays]
  refine RebalanceDays.select_eq_filter hstop hascending hascending' ?_ config.interval
  intro e
  rw [hmem, hmem']
  constructor
  · rintro ⟨hstart, he, htrades⟩
    exact ⟨⟨hstart, Date.le_trans he hstop, htrades⟩, he⟩
  · rintro ⟨⟨hstart, _, htrades⟩, he⟩
    exact ⟨hstart, he, htrades⟩

/-- The longer run walks through the last state of the shorter one. -/
theorem walked_on {m : Market α} (hm : (⟨store, fundamentals, none⟩ : Loader α).Keeps m)
    (hstdev : formula.tree.isWithoutStdev = true) :
    (report'.rebalanceDays.filter (config.stop < ·)).foldlM
      (day store symbols { config with stop := stop } scores') last = .ok last' := by
  have hdays := rebalanceDays_eq_filter hstore hstop hrun hrun'
  have hscores : ∀ date ∈ report.rebalanceDays, scores'.get? date = scores.get? date := by
    intro date hdate
    have hdate' : date ∈ report'.rebalanceDays := by
      rw [hdays] at hdate
      exact List.mem_of_mem_filter hdate
    exact Scoring.get?_score_eq hm hstdev hrun'.scored hrun.scored
      (Date.nodup_of_pairwise hrun'.pairwise) (Date.nodup_of_pairwise hrun.pairwise) hdate' hdate
  have hsame : report.rebalanceDays.foldlM
      (day store symbols { config with stop := stop } scores') (.start config.startingCash) =
        .ok last := by
    rw [← hrun.walked]
    exact Except.foldlM_congr (fun date hdate s => day_congr (hscores date hdate) s) _
  have hwalked := hrun'.walked
  rw [← Date.filter_append_filter hrun'.pairwise config.stop, ← hdays, List.foldlM_append,
    Except.bind_eq_ok_iff] at hwalked
  obtain ⟨mid, hmid, hlater⟩ := hwalked
  rw [← Except.ok.inj (hmid.symm.trans hsame)]
  exact hlater

end

/-- **A later end leaves the past as it was**, whatever store keeps the data of a market. -/
theorem extended_of_keeps {prices : Symbol → Series α} {trades : Date → Prop}
    (hstore : store.Keeps prices trades) {fundamentals : Option (FundamentalsStore α)}
    {m : Market α} (hm : (⟨store, fundamentals, none⟩ : Loader α).Keeps m) {formula : Formula α}
    (hstdev : formula.tree.isWithoutStdev = true) {stop : Date} (hstop : config.stop ≤ stop)
    {cancelled : Bool} {report report' : BacktestReport α}
    (h : run store fundamentals formula symbols config cancelled = .ok report)
    (h' : run store fundamentals formula symbols { config with stop := stop } cancelled =
      .ok report') : Extended config.stop report report' := by
  obtain ⟨tradingDays, scores, last, hrun⟩ := walked_of_run h
  obtain ⟨tradingDays', scores', last', hrun'⟩ := walked_of_run h'
  have hdays := rebalanceDays_eq_filter hstore hstop hrun hrun'
  have hbefore := extends_of_foldlM hrun.walked
  have hafter := extends_of_foldlM (walked_on hstore hstop hrun hrun' hm hstdev)
  have hearly : ∀ d ∈ report.rebalanceDays, d ≤ config.stop := by
    intro d hd
    rw [hdays] at hd
    exact of_decide_eq_true (List.mem_filter.1 hd).2
  have hlate : ∀ d ∈ report'.rebalanceDays.filter (config.stop < ·), config.stop < d :=
    fun d hd => of_decide_eq_true (List.mem_filter.1 hd).2
  constructor
  · exact hdays
  · rw [hrun.samples, hrun'.samples]
    exact (hbefore.samples.filter_eq hafter.samples hearly hlate).symm
  · rw [hrun.skipped, hrun'.skipped]
    exact (hbefore.skipped.filter_eq hafter.skipped hearly hlate).symm

/-- **Extending a backtest does not rewrite its past.**  Without volatilities the rebalance days,
the samples and the skipped days of a run are those of a run to a later end, as far as it goes. -/
theorem run_extended (s : MemoryStore α)
    (fundamentals : Option (MemoryStore α)) {formula : Formula α}
    (hstdev : formula.tree.isWithoutStdev = true) {stop : Date} (hstop : config.stop ≤ stop)
    {cancelled : Bool} {report report' : BacktestReport α}
    (h : run s.priceStore (fundamentals.map MemoryStore.fundamentalsStore) formula symbols config
      cancelled = .ok report)
    (h' : run s.priceStore (fundamentals.map MemoryStore.fundamentalsStore) formula symbols
      { config with stop := stop } cancelled = .ok report') :
    Extended config.stop report report' :=
  extended_of_keeps s.keeps_priceStore (s.keeps_stores fundamentals) hstdev hstop h h'

/-- A day more after two days of three shares. -/
theorem run_extended_threeDays : ∃ report report',
    run threeDays.priceStore none Scoring.priceToday ["AAPL", "GOOG", "MSFT"]
      { tiltedDaily with stop := Scoring.dayOf 2 } false = .ok report ∧
    run threeDays.priceStore none Scoring.priceToday ["AAPL", "GOOG", "MSFT"] tiltedDaily false =
      .ok report' ∧
    report.samples.length = 2 ∧ report'.samples.length = 3 ∧
    Extended (Scoring.dayOf 2) report report' := by
  have hrun : (run threeDays.priceStore none Scoring.priceToday ["AAPL", "GOOG", "MSFT"]
      { tiltedDaily with stop := Scoring.dayOf 2 } false).toOption.any
        (fun report => decide (report.samples.length = 2)) = true := by
    decide +kernel
  have hrun' : (run threeDays.priceStore none Scoring.priceToday ["AAPL", "GOOG", "MSFT"]
      tiltedDaily false).toOption.any
        (fun report => decide (report.samples.length = 3)) = true := by
    decide +kernel
  obtain ⟨report, hreport, hlength⟩ := Except.exists_of_toOption_any hrun
  obtain ⟨report', hreport', hlength'⟩ := Except.exists_of_toOption_any hrun'
  refine ⟨report, report', hreport, hreport', of_decide_eq_true hlength,
    of_decide_eq_true hlength', ?_⟩
  exact run_extended threeDays none (show Scoring.priceToday.tree.isWithoutStdev = true from rfl)
    (show Scoring.dayOf 2 ≤ Scoring.dayOf 3 by decide) hreport hreport'

end Backtest

end FactorPortfolio
