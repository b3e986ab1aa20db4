import FactorPortfolio.Proofs.Backtest.Extension
import FactorPortfolio.Proofs.Scalar.Quotient
import FactorPortfolio.Proofs.Table

/-!
# The accounts of a run

Each rebalance day leaves either a sample or a skipped day: `Accounted`, kept by a day
(`Accounted.step`) and so by a walk (`accounted_of_foldlM`).  A skipped day hands on the portfolio
and the ledger that it was given (`kept_of_day`).  The share of skipped days that ends a run is
a quotient in binary64, and yet exactly a tenth (`checkBudget_eq`).  Together this says what a run
comes to once its days are walked: `run_accounts`.
-/

namespace FactorPortfolio

/-! ### Snapshots -/

section

variable {α : Type} [Scalar α]

theorem Snapshot.map_date_list (samples : List (Sample α)) :
    (Snapshot.list samples).map Snapshot.date = samples.map Sample.date := by
  have hfollowing : ∀ (first : α) (samples : List (Sample α)),
      (Snapshot.following first samples).map Snapshot.date = samples.map Sample.date := by
    intro first samples
    induction samples with
    | nil => rfl
    | cons a samples ih => simp [Snapshot.following, ih]
  cases samples with
  | nil => rfl
  | cons a samples => simp [Snapshot.list, hfollowing]

theorem Snapshot.keys_ofSamples {samples : List (Sample α)}
    (h : (samples.map Sample.date).Pairwise (· < ·)) :
    (Snapshot.ofSamples samples).keys = samples.map Sample.date := by
  rw [← map_date_list, List.pairwise_map] at h
  rw [ofSamples, Table.keys, Table.entries_ofList_of_ascending, List.map_map, ← map_date_list]
  · rfl
  · exact List.pairwise_map.2 (h.imp fun hlt => Date.compare_eq_lt.2 hlt)

end

namespace Backtest

/-! ### Days with a sample and days without -/

/-- Days in two records, each in order: every day is in one of the two and none in both. -/
structure Accounted (days rebalanced skipped : List Date) : Prop where
  rebalanced_ascending : rebalanced.Pairwise (· < ·)
  skipped_ascending : skipped.Pairwise (· < ·)
  disjoint : rebalanced.Disjoint skipped
  complete : ∀ d, d ∈ days ↔ d ∈ rebalanced ∨ d ∈ skipped

namespace Accounted

variable {days rebalanced skipped : List Date}

theorem nil : Accounted [] [] [] where
  rebalanced_ascending := .nil
  skipped_ascending := .nil
  disjoint := List.disjoint_nil_left _
  complete := by simp

theorem symm (h : Accounted days rebalanced skipped) : Accounted days skipped rebalanced where
  rebalanced_ascending := h.skipped_ascending
  skipped_ascending := h.rebalanced_ascending
  disjoint := h.disjoint.symm
  complete d := (h.complete d).trans or_comm

theorem rebalance (h : Accounted days rebalanced skipped) {date : Date}
    (hdate : ∀ d ∈ days, d < date) :
    Accounted (days ++ [date]) (rebalanced ++ [date]) skipped where
  rebalanced_ascending := by
    refine List.pairwise_append.2 ⟨h.rebalanced_ascending, List.pairwise_singleton _ _, ?_⟩
    intro d hd d' hd'
    rw [List.mem_singleton.1 hd']
    exact hdate d ((h.complete d).2 (.inl hd))
  skipped_ascending := h.skipped_ascending
  disjoint := by
    refine List.disjoint_append_left.2 ⟨h.disjoint, List.singleton_disjoint.2 fun hd => ?_⟩
    exact Date.lt_irrefl date (hdate date ((h.complete date).2 (.inr hd)))
  complete d := by
    simp only [List.mem_append, h.complete d]
    tauto

theorem skip (h : Accounted days rebalanced skipped) {date : Date}
    (hdate : ∀ d ∈ days, d < date) : Accounted (days ++ [date]) rebalanced (skipped ++ [date]) :=
  (h.symm.rebalance hdate).symm

theorem length_skipped_le (h : Accounted days rebalanced skipped) :
    skipped.length ≤ days.length :=
  ((Date.nodup_of_pairwise h.skipped_ascending).subperm fun d hd =>
    (h.complete d).2 (.inr hd)).length_le

end Accounted

section

variable {α : Type} [Scalar α] {store : PriceStore α} {symbols : List Symbol}
  {config : BacktestConfig α} {scores : DailyScores α} {s s' : State α}

/-- **A day is entered in one of the two records.** -/
theorem Accounted.step {days : List Date}
    (h : Accounted days (s.samples.map Sample.date) (s.skipped.map SkippedDay.date)) {date : Date}
    (hdate : ∀ d ∈ days, d < date) {prices : Table Symbol α} {value : α} {result : ScoreResult α}
    (hday : DayStep config s date prices value result s') :
    Accounted (days ++ [date]) (s'.samples.map Sample.date) (s'.skipped.map SkippedDay.date) := by
  cases hday with
  | rebalanced computed diff filtered =>
    rw [List.map_append]
    exact h.rebalance hdate
  | skipped failed =>
    rw [List.map_append]
    exact h.skip hdate

theorem accounted_of_foldlM (days : List Date) {rest : List Date}
    (hwalk : rest.foldlM (day store symbols config scores) s = .ok s')
    (hascending : (days ++ rest).Pairwise (· < ·))
    (h : Accounted days (s.samples.map Sample.date) (s.skipped.map SkippedDay.date)) :
    Accounted (days ++ rest) (s'.samples.map Sample.date)
      (s'.skipped.map SkippedDay.date) := by
  induction rest generalizing days s with
  | nil =>
    obtain rfl := Except.pure_eq_ok_iff.1 hwalk
    rwa [List.append_nil]
  | cons date rest ih =>
    rw [List.foldlM_cons] at hwalk
    obtain ⟨s₁, hs₁, hwalk⟩ := Except.bind_eq_ok_iff.1 hwalk
    obtain ⟨prices, value, result, _, _, _, hstep⟩ := dayStep_of_day hs₁
    have hdate : ∀ d ∈ days, d < date := fun d hd =>
      (List.pairwise_append.1 hascending).2.2 d hd date List.mem_cons_self
    rw [List.append_cons] at hascending ⊢
    exact ih _ hwalk hascending (h.step hdate hstep)

/-- **A skipped day hands on what it was given**: what is held and what is held back. -/
theorem kept_of_day {date : Date} (h : day store symbols config scores s date = .ok s')
    (hskipped : s'.skipped ≠ s.skipped) : s'.portfolio = s.portfolio ∧ s'.ledger = s.ledger := by
  obtain ⟨prices, value, result, _, _, _, hstep⟩ := dayStep_of_day h
  cases hstep with
  | skipped failed => exact ⟨rfl, rfl⟩
  | rebalanced computed diff filtered => exact absurd rfl hskipped

/-- The days that a walk skipped in the end are those that were skipped on the way. -/
theorem kept_of_skipped {before after : List Date} {date : Date} {last : State α} {cash : α}
    (hwalk : (before ++ date :: after).foldlM (day store symbols config scores) (.start cash) =
      .ok last)
    (hascending : (before ++ date :: after).Pairwise (· < ·))
    (hskipped : date ∈ last.skipped.map SkippedDay.date) :
    ∃ s s', before.foldlM (day store symbols config scores) (.start cash) = .ok s ∧
      day store symbols config scores s date = .ok s' ∧
      s'.portfolio = s.portfolio ∧ s'.ledger = s.ledger := by
  have haccounted := accounted_of_foldlM [] hwalk hascending .nil
  rw [List.foldlM_append, Except.bind_eq_ok_iff] at hwalk
  obtain ⟨s, hs, hwalk⟩ := hwalk
  rw [List.foldlM_cons, Except.bind_eq_ok_iff] at hwalk
  obtain ⟨s', hs', hafter⟩ := hwalk
  refine ⟨s, s', hs, hs', kept_of_day hs' ?_⟩
  obtain ⟨prices, value, result, _, _, _, hstep⟩ := dayStep_of_day hs'
  cases hstep with
  | skipped failed => simp
  | rebalanced computed diff filtered =>
    -- the sample of the day would still be there at the end
    obtain ⟨more, hmore, _⟩ := (extends_of_foldlM hafter).samples
    have hsample : date ∈ last.samples.map Sample.date := by
      rw [hmore]
      simp
    exact absurd hskipped (haccounted.disjoint hsample)

/-! ### Runs whose days are all walked -/

/-- A run comes to the end of its rebalance days. -/
structure Processed (store : PriceStore α) (fundamentals : Option (FundamentalsStore α))
    (formula : Formula α) (symbols : List Symbol) (config : BacktestConfig α) (cancelled : Bool)
    (days : List Date) (scores : DailyScores α) (last : State α) : Prop where
  inputs : symbols ≠ []
  calendar : ∃ tradingDays, store.tradingDays config.start config.stop = .ok tradingDays ∧
    days = RebalanceDays.select tradingDays config.stop config.interval
  nonempty : days ≠ []
  scored : Scoring.score ⟨store, fundamentals, none⟩ formula days symbols cancelled = .ok scores
  walked : days.foldlM (day store symbols config scores) (.start config.startingCash) = .ok last

variable {fundamentals : Option (FundamentalsStore α)} {formula : Formula α} {cancelled : Bool}
  {days : List Date} {last : State α}

namespace Processed

theorem pairwise
    (h : Processed store fundamentals formula symbols config cancelled days scores last) :
    days.Pairwise (· < ·) := by
  obtain ⟨tradingDays, _, rfl⟩ := h.calendar
  exact RebalanceDays.select_pairwise _ _ _

theorem accounted
    (h : Processed store fundamentals formula symbols config cancelled days scores last) :
    Accounted days (last.samples.map Sample.date) (last.skipped.map SkippedDay.date) :=
  accounted_of_foldlM [] h.walked h.pairwise .nil

theorem run_eq
    (h : Processed store fundamentals formula symbols config cancelled days scores last) :
    run store fundamentals formula symbols config cancelled =
      checkBudget last.skipped days.length >>= fun _ => .ok ⟨days, last.samples,
        Snapshot.ofSamples last.samples, last.skipped, last.scoreErrors, last.ledger⟩ := by
  obtain ⟨tradingDays, hcalendar, hdays⟩ := h.calendar
  rw [run, if_neg (by simpa using h.inputs), liftStore, Except.mapError_eq_ok_iff.2 hcalendar]
  show (if (RebalanceDays.select tradingDays config.stop config.interval).isEmpty then _ else _) = _
  rw [← hdays, if_neg (by simpa using h.nonempty)]
  show (Scoring.score _ formula days symbols cancelled >>= fun _ => _) = _
  rw [h.scored]
  show (days.foldlM (day store symbols config scores) _ >>= fun _ => _) = _
  rw [h.walked]
  rfl

end Processed

theorem processed_of_run {report : BacktestReport α}
    (h : run store fundamentals formula symbols config cancelled = .ok report) :
    ∃ scores last, Processed store fundamentals formula symbols config cancelled
      report.rebalanceDays scores last := by
  obtain ⟨tradingDays, scores, last, hrun⟩ := walked_of_run h
  refine ⟨scores, last, ?_, ⟨tradingDays, hrun.calendar, hrun.rebalanceDays⟩, ?_, hrun.scored,
    hrun.walked⟩
  · rintro rfl
    cases h
  · intro hdays
    rw [run, liftStore, Except.mapError_eq_ok_iff.2 hrun.calendar] at h
    split at h
    · cases h
    change (if (RebalanceDays.select tradingDays config.stop config.interval).isEmpty then _
      else _) = _ at h
    rw [← hrun.rebalanceDays, hdays] at h
    cases h

end

/-! ### The budget in binary64 -/

theorem checkBudget_eq {skipped : List (SkippedDay Float)} {days : Nat}
    (hle : skipped.length ≤ days) (hdays : days < 2 ^ 53) :
    checkBudget skipped days =
      if skipped ≠ [] ∧ days ≤ 10 * skipped.length then
        .error (.tooManyFailures (skippedRatio skipped.length days * 100.0)
          (skipped.take quotedErrors))
      else .ok () := by
  rw [checkBudget]
  by_cases hskipped : skipped = []
  · simp [hskipped]
  have hpos : 0 < skipped.length := List.length_pos_iff.2 hskipped
  have hratio : (skippedRatio skipped.length days : Float) < errorBudget ↔
      10 * skipped.length < days :=
    Binary64.ofNat_div_lt_tenth_iff hpos (by omega) (by omega) hdays
  rw [if_neg (by simp [hskipped]; omega)]
  by_cases hbudget : 10 * skipped.length < days
  · rw [if_pos (hratio.2 hbudget), if_neg (by omega)]
  · rw [if_neg (mt hratio.1 hbudget), if_pos ⟨hskipped, by omega⟩]

theorem Processed.run_eq_ite {store : PriceStore Float}
    {fundamentals : Option (FundamentalsStore Float)} {formula : Formula Float}
    {symbols : List Symbol} {config : BacktestConfig Float} {cancelled : Bool} {days : List Date}
    {scores : DailyScores Float} {last : State Float}
    (h : Processed store fundamentals formula symbols config cancelled days scores last) :
    run store fundamentals formula symbols config cancelled =
      if last.skipped ≠ [] ∧ days.length ≤ 10 * last.skipped.length then
        .error (.tooManyFailures (skippedRatio last.skipped.length days.length * 100.0)
          (last.skipped.take quotedErrors))
      else .ok ⟨days, last.samples, Snapshot.ofSamples last.samples, last.skipped,
        last.scoreErrors, last.ledger⟩ := by
  have hle := h.accounted.length_skipped_le
  have hdays := Date.length_le_of_pairwise h.pairwise
  rw [List.length_map] at hle
  rw [h.run_eq, checkBudget_eq hle (by omega)]
  split <;> rfl

/-- **The accounts of a run.**  A report has every rebalance day in exactly one of its two records,
each in order, with a snapshot for each sample, and fewer than a tenth of the days skipped.  A run
that comes to the end of its days with a tenth of them skipped, or more, fails and quotes the
earliest of them.  A skipped day hands on the portfolio and the ledger that it was given, in any
state and so on the way of the run. -/
theorem run_accounts (store : PriceStore Float) (fundamentals : Option (FundamentalsStore Float))
    (formula : Formula Float) (symbols : List Symbol) (config : BacktestConfig Float)
    (cancelled : Bool) :
    (∀ report, run store fundamentals formula symbols config cancelled = .ok report →
      Accounted report.rebalanceDays (report.samples.map Sample.date)
        (report.skipped.map SkippedDay.date) ∧
      report.snapshots.keys = report.samples.map Sample.date ∧
      10 * report.skipped.length < report.rebalanceDays.length ∧
      ∃ scores last, Processed store fundamentals formula symbols config cancelled
        report.rebalanceDays scores last ∧ last.samples = report.samples ∧
          last.skipped = report.skipped) ∧
    (∀ days scores last,
      Processed store fundamentals formula symbols config cancelled days scores last →
      (last.skipped ≠ [] → days.length ≤ 10 * last.skipped.length →
        run store fundamentals formula symbols config cancelled =
          .error (.tooManyFailures (skippedRatio last.skipped.length days.length * 100.0)
            (last.skipped.take (min 3 last.skipped.length))) ∧
        (last.skipped.map SkippedDay.date).Pairwise (· < ·)) ∧
      ∀ before date after, days = before ++ date :: after →
        date ∈ last.skipped.map SkippedDay.date →
        ∃ s s', before.foldlM (day store symbols config scores) (.start config.startingCash) =
            .ok s ∧
          day store symbols config scores s date = .ok s' ∧
          s'.portfolio = s.portfolio ∧ s'.ledger = s.ledger) ∧
    ∀ scores s date s', day store symbols config scores s date = .ok s' →
      s'.skipped ≠ s.skipped → s'.portfolio = s.portfolio ∧ s'.ledger = s.ledger := by
  refine ⟨?_, ?_, fun scores s date s' => kept_of_day⟩
  · intro report h
    obtain ⟨scores, last, hprocessed⟩ := processed_of_run h
    generalize report.rebalanceDays = days at hprocessed
    have haccounted := hprocessed.accounted
    rw [hprocessed.run_eq_ite] at h
    split at h
    · cases h
    rename_i hbudget
    obtain rfl := Except.ok.inj h
    refine ⟨haccounted, Snapshot.keys_ofSamples haccounted.rebalanced_ascending, ?_, scores, last,
      hprocessed, rfl, rfl⟩
    by_cases hskipped : last.skipped = []
    · simpa [hskipped] using List.length_pos_iff.2 hprocessed.nonempty
    · exact Nat.lt_of_not_le fun hmany => hbudget ⟨hskipped, hmany⟩
  · intro days scores last hprocessed
    constructor
    · intro hskipped hmany
      rw [hprocessed.run_eq_ite, if_pos ⟨hskipped, hmany⟩, List.take_eq_take_min]
      exact ⟨rfl, hprocessed.accounted.skipped_ascending⟩
    · rintro before date after rfl hdate
      exact kept_of_skipped hprocessed.walked hprocessed.pairwise hdate

/-- Three shares, one of which has no price yet on the first day. -/
def lateShare : MemoryStore Float :=
  Scoring.shares 1 [("AAPL", 1, 100), ("GOOG", 1, 200), ("AAPL", 2, 110), ("GOOG", 2, 190),
    ("MSFT", 2, 300), ("AAPL", 3, 120), ("GOOG", 3, 210), ("MSFT", 3, 320)]

def equalDaily (start stop : Nat) : BacktestConfig Float :=
  ⟨Scoring.dayOf start, Scoring.dayOf stop, 1, 1000, 3, 0.0001, .equal, 1⟩

theorem processed_lateShare : ∃ scores last, Processed lateShare.priceStore none
    Scoring.priceToday ["AAPL", "GOOG", "MSFT"] (equalDaily 1 2) false
    [Scoring.dayOf 1, Scoring.dayOf 2] scores last ∧ last.skipped.length = 1 := by
  have hwalk : (Scoring.score ⟨lateShare.priceStore, none, none⟩ Scoring.priceToday
      [Scoring.dayOf 1, Scoring.dayOf 2] ["AAPL", "GOOG", "MSFT"] false).toOption.any (fun scores =>
        ([Scoring.dayOf 1, Scoring.dayOf 2].foldlM (day lateShare.priceStore
          ["AAPL", "GOOG", "MSFT"] (equalDaily 1 2) scores) (.start 1000)).toOption.any
            fun last => decide (last.skipped.length = 1)) = true := by
    decide +kernel
  obtain ⟨scores, hscored, hwalk⟩ := Except.exists_of_toOption_any hwalk
  obtain ⟨last, hwalked, hskipped⟩ := Except.exists_of_toOption_any hwalk
  have hcalendar : lateShare.priceStore.tradingDays (Scoring.dayOf 1) (Scoring.dayOf 2) =
      .ok [Scoring.dayOf 1, Scoring.dayOf 2] := rfl
  refine ⟨scores, last, ⟨by decide, ⟨_, hcalendar, ?_⟩, by decide, hscored, hwalked⟩,
    of_decide_eq_true hskipped⟩
  decide +kernel

/-- Two days with all prices are reported; with a skipped day before them in place of the last the
run fails. -/
theorem run_accounts_lateShare :
    (∃ report, run lateShare.priceStore none Scoring.priceToday ["AAPL", "GOOG", "MSFT"]
        (equalDaily 2 3) false = .ok report ∧ report.samples.length = 2 ∧
      Accounted report.rebalanceDays (report.samples.map Sample.date)
        (report.skipped.map SkippedDay.date) ∧
      report.snapshots.keys = report.samples.map Sample.date ∧
      10 * report.skipped.length < report.rebalanceDays.length) ∧
    ∃ scores last, Processed lateShare.priceStore none Scoring.priceToday
        ["AAPL", "GOOG", "MSFT"] (equalDaily 1 2) false [Scoring.dayOf 1, Scoring.dayOf 2] scores
        last ∧
      last.skipped.length = 1 ∧
      run lateShare.priceStore none Scoring.priceToday ["AAPL", "GOOG", "MSFT"]
          (equalDaily 1 2) false =
        .error (.tooManyFailures (skippedRatio 1 2 * 100.0) (last.skipped.take 1)) := by
  constructor
  · have hrun : (run lateShare.priceStore none Scoring.priceToday ["AAPL", "GOOG", "MSFT"]
        (equalDaily 2 3) false).toOption.any (fun report => decide (report.samples.length = 2)) =
          true := by
      decide +kernel
    obtain ⟨report, hreport, hlength⟩ := Except.exists_of_toOption_any hrun
    obtain ⟨haccounted, hkeys, hbudget, _⟩ := (run_accounts _ _ _ _ _ _).1 report hreport
    exact ⟨report, hreport, of_decide_eq_true hlength, haccounted, hkeys, hbudget⟩
  · obtain ⟨scores, last, hprocessed, hlength⟩ := processed_lateShare
    have hskipped : last.skipped ≠ [] := List.ne_nil_of_length_pos (by omega)
    have hrun := (((run_accounts _ _ _ _ _ _).2.1 _ _ _ hprocessed).1 hskipped (by simp; omega)).1
    rw [hlength] at hrun
    exact ⟨scores, last, hprocessed, hlength, hrun⟩

end Backtest

end FactorPortfolio
