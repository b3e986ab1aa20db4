import Mathlib.Tactic.FieldSimp
import FactorPortfolio.Proofs.Backtest.Accounting
import FactorPortfolio.Proofs.Backtest.ValueChain
import FactorPortfolio.Proofs.Rebalance.SelfFinancing

/-!
# Snapshots explain the value curve

A sample buys with its value what its weights say, and the next one is worth what was bought at the
prices of its day (`Follows`).  So the weights and the changes of the prices in a snapshot tell the
value of the next one.  Parts were rounded when they were bought, and each error grows with the
price of its symbol: `abs_worth_sub_le_growth` for the parts of one target, `Explains` for two
snapshots, and `snapshots_explain_values` for those of a run.
-/

namespace FactorPortfolio

variable {α : Type} [Field α] [LinearOrder α] [FloorRing α] [InexactFunctions α]

/-! ### Targets at later prices -/

namespace Target

variable [IsStrictOrderedRing α]

theorem abs_sum_round3_mul_sub_le (value : α) {growth : Symbol → α} {l : List (Symbol × α)}
    (h : ∀ e ∈ l, 0 ≤ growth e.1) :
    |(l.map fun e => round3 (value * e.2) * growth e.1).sum -
        value * (l.map fun e => e.2 * growth e.1).sum| ≤
      0.0005 * (l.map fun e => growth e.1).sum := by
  induction l with
  | nil => simp
  | cons e l ih =>
    obtain ⟨he, hl⟩ := List.forall_mem_cons.1 h
    have hround : |(round3 (value * e.2) - value * e.2) * growth e.1| ≤ 0.0005 * growth e.1 := by
      rw [abs_mul, abs_of_nonneg he]
      exact mul_le_mul_of_nonneg_right (abs_round3_sub_le _) he
    simp only [List.map_cons, List.sum_cons]
    have hsplit : round3 (value * e.2) * growth e.1 +
          (l.map fun e => round3 (value * e.2) * growth e.1).sum -
        value * (e.2 * growth e.1 + (l.map fun e => e.2 * growth e.1).sum) =
          (round3 (value * e.2) - value * e.2) * growth e.1 +
            ((l.map fun e => round3 (value * e.2) * growth e.1).sum -
              value * (l.map fun e => e.2 * growth e.1).sum) := by ring
    calc _ ≤ |(round3 (value * e.2) - value * e.2) * growth e.1| +
          |(l.map fun e => round3 (value * e.2) * growth e.1).sum -
            value * (l.map fun e => e.2 * growth e.1).sum| := by rw [hsplit]; exact abs_add_le _ _
      _ ≤ 0.0005 * growth e.1 + 0.0005 * (l.map fun e => growth e.1).sum :=
        add_le_add hround (ih hl)
      _ = _ := by ring

/-- **At later prices a target is worth what its weights and the changes of the prices say**, but
for what the rounding of its parts has grown to. -/
theorem Computed.abs_worth_sub_le_growth {date : Date} {scores prices : Table Symbol α}
    {numTickers : Nat} {value : α} {policy : WeightingPolicy α} {target : Target α}
    (hpolicy : policy.Admissible)
    (h : Computed date scores prices numTickers value policy target) {later : Table Symbol α}
    (hgrowth : ∀ e ∈ target.weights.entries, 0 ≤ growth prices later e.1) :
    |target.portfolio.worth later - value * (1 +
        (target.weights.entries.map fun e => e.2 * (growth prices later e.1 - 1)).sum)| ≤
      0.0005 * (target.weights.entries.map fun e => growth prices later e.1).sum := by
  have hn : numTickers ≠ 0 := by
    have := h.tickers
    rintro rfl
    cases this
  obtain ⟨_, hsum⟩ := Weighting.sum_weights hpolicy hn h.weights
  have hone : (target.weights.entries.map fun e => e.2).sum = 1 := hsum
  have hworth : target.portfolio.worth later = (target.weights.entries.map fun e =>
      round3 (value * e.2) * growth prices later e.1).sum := by
    rw [Portfolio.worth, h.positions]
    exact sum_position?_later h.priced later
  have hweighted : 1 + (target.weights.entries.map fun e =>
      e.2 * (growth prices later e.1 - 1)).sum =
        (target.weights.entries.map fun e => e.2 * growth prices later e.1).sum := by
    have hsplit : ∀ e : Symbol × α, e.2 * (growth prices later e.1 - 1) =
        e.2 * growth prices later e.1 + -1 * e.2 := by
      intro e
      ring
    simp only [hsplit]
    rw [List.sum_map_add, List.sum_map_mul_left, hone]
    ring
  rw [hworth, hweighted]
  exact abs_sum_round3_mul_sub_le value hgrowth

end Target

/-! ### Snapshots of samples -/

namespace Snapshot

theorem growth_of_changeUntil {a b : Sample α} {symbol : Symbol} {change : α}
    (h : changeUntil a (some b) symbol = some change) :
    Target.growth a.prices b.prices symbol - 1 = change / 100 := by
  obtain ⟨start, hstart, h⟩ := Option.bind_eq_some_iff.1 h
  obtain ⟨stop, hstop, h⟩ := Option.bind_eq_some_iff.1 h
  rw [priceChange?] at h
  split at h
  · rename_i hne
    rw [bne_iff_ne] at hne
    norm_num at hne h
    rw [Target.growth, hstart, hstop, Option.getD_some, Option.getD_some, ← h]
    field_simp
  · cases h

theorem isChain_list {R : Snapshot α → Snapshot α → Prop} {samples : List (Sample α)}
    (h : samples.IsChain fun a b => ∀ change change' next,
      R ⟨a.date, a.totalValue, change, assetsOf a (some b)⟩
        ⟨b.date, b.totalValue, change', assetsOf b next⟩) : (list samples).IsChain R := by
  have hfollowing : ∀ (first change : α) (a : Sample α) (samples : List (Sample α)),
      ((a :: samples).IsChain fun a b => ∀ change change' next,
        R ⟨a.date, a.totalValue, change, assetsOf a (some b)⟩
          ⟨b.date, b.totalValue, change', assetsOf b next⟩) →
      (⟨a.date, a.totalValue, change, assetsOf a samples.head?⟩ ::
        following first samples).IsChain R := by
    intro first change a samples
    induction samples generalizing a change with
    | nil => exact fun _ => .singleton _
    | cons b samples ih =>
      intro h
      obtain ⟨hab, h⟩ := List.isChain_cons_cons.1 h
      exact List.isChain_cons_cons.2 ⟨hab _ _ _, ih _ b h⟩
  cases samples with
  | nil => exact .nil
  | cons a samples => exact hfollowing _ _ a samples h

/-- **Every snapshot has the change of its value against the first.** -/
theorem valueChange_of_mem_list {samples : List (Sample α)} {first s : Snapshot α}
    (hfirst : first ∈ (list samples).head?) (hs : s ∈ list samples) :
    s.valueChange = 100 * (s.value - first.value) / first.value := by
  cases samples with
  | nil => cases hs
  | cons a samples =>
    obtain rfl := Option.some.inj hfirst
    have hfollowing : ∀ (samples : List (Sample α)), s ∈ following a.totalValue samples →
        s.valueChange = 100 * (s.value - a.totalValue) / a.totalValue := by
      intro samples hs
      induction samples with
      | nil => cases hs
      | cons b samples ih =>
        rcases List.mem_cons.1 hs with rfl | hs
        · show changeSince a.totalValue b.totalValue = _
          rw [changeSince]
          split
          · rename_i hzero
            have hzero := eq_of_beq hzero
            norm_num at hzero ⊢
            rw [hzero, div_zero]
          · norm_num
        · exact ih hs
    rcases List.mem_cons.1 hs with rfl | hs
    · show (0.0 : α) = _
      rw [sub_self, mul_zero, zero_div, Exact.zero_eq]
    · exact hfollowing samples hs

theorem values_ofSamples {samples : List (Sample α)}
    (h : (samples.map Sample.date).Pairwise (· < ·)) :
    (ofSamples samples).values = list samples := by
  rw [← map_date_list, List.pairwise_map] at h
  rw [ofSamples, Table.values, Table.entries_ofList_of_ascending, List.map_map]
  · exact List.map_id _
  · exact List.pairwise_map.2 (h.imp fun hlt => Date.compare_eq_lt.2 hlt)

end Snapshot

/-- All prices that a store gives out are above zero. -/
def PriceStore.PricesPositive (store : PriceStore α) : Prop :=
  ∀ symbols date prices symbol x, store.pricesOn symbols date = .ok prices →
    prices.get? symbol = some x → 0 < x

namespace Backtest

variable {store : PriceStore α} {symbols : List Symbol} {config : BacktestConfig α}

/-! ### Samples and where their prices come from -/

/-- A sample holds a target of its day, at the prices of the store. -/
structure Sampled (store : PriceStore α) (symbols : List Symbol) (config : BacktestConfig α)
    (a : Sample α) : Prop where
  prices : store.pricesOn symbols a.date = .ok a.prices
  target : ∃ scores target, target.portfolio = a.portfolio ∧ target.weights = a.weights ∧
    Target.Computed a.date scores a.prices config.numTickers a.totalValue config.weighting target

theorem Sampled.value_pos {a : Sample α} (h : Sampled store symbols config a)
    [IsStrictOrderedRing α] : 0 < a.totalValue := by
  obtain ⟨_, _, _, _, hcomputed⟩ := h.target
  have hmin : (0 : α) < Target.minValue := by
    rw [Target.minValue]
    norm_num
  exact hmin.trans (not_le.1 hcomputed.worth)

/-- **A day keeps the samples at the prices of the store.** -/
theorem sampled_step {scores : DailyScores α} {s s' : State α} {date : Date}
    (h : ∀ a ∈ s.samples, Sampled store symbols config a)
    (hday : day store symbols config scores s date = .ok s') :
    ∀ a ∈ s'.samples, Sampled store symbols config a := by
  obtain ⟨prices, value, result, hprices, _, _, hstep⟩ := dayStep_of_day hday
  cases hstep with
  | skipped failed => exact h
  | rebalanced computed diff filtered =>
    intro a ha
    rcases List.mem_append.1 ha with ha | ha
    · exact h a ha
    · rw [List.mem_singleton.1 ha]
      exact ⟨hprices, _, _, rfl, rfl, computed⟩

/-- The weights of one snapshot and the changes of its prices say what the next one is worth, but
for what the rounding of the parts has grown to. -/
def Explains (store : PriceStore α) (symbols : List Symbol) (a b : Snapshot α) : Prop :=
  (∀ m ∈ a.assets.values, m.priceChange.isSome = true) →
    ∃ prices later, store.pricesOn symbols a.date = .ok prices ∧
      store.pricesOn symbols b.date = .ok later ∧
      |b.value - a.value * (1 +
          (a.assets.values.map fun m => m.weight * m.priceChange.getD 0 / 100).sum)| ≤
        0.0005 * (a.assets.keys.map (Target.growth prices later)).sum

variable [IsStrictOrderedRing α]

/-- **Samples that follow each other have snapshots that explain each other.** -/
theorem explains_of_follows (hpolicy : config.weighting.Admissible)
    (hprices : store.PricesPositive) {a b : Sample α} (ha : Sampled store symbols config a)
    (hb : Sampled store symbols config b) (h : Follows a b) (change change' : α)
    (next : Option (Sample α)) :
    Explains store symbols ⟨a.date, a.totalValue, change, Snapshot.assetsOf a (some b)⟩
      ⟨b.date, b.totalValue, change', Snapshot.assetsOf b next⟩ := by
  intro hchanges
  obtain ⟨scores, target, hportfolio, hweights, hcomputed⟩ := ha.target
  refine ⟨a.prices, b.prices, ha.prices, hb.prices, ?_⟩
  have hchange : ∀ e ∈ target.weights.entries, ∃ change,
      Snapshot.changeUntil a (some b) e.1 = some change := by
    intro e he
    let asset : AssetMetrics α :=
      ⟨e.2, (a.scores.get? e.1).getD 0.0, Snapshot.changeUntil a (some b) e.1⟩
    have hasset : (e.1, asset) ∈ (Snapshot.assetsOf a (some b)).entries :=
      List.mem_map.2 ⟨e, hweights ▸ he, rfl⟩
    exact Option.isSome_iff_exists.1 (hchanges asset (List.mem_map_of_mem hasset))
  have hnonneg : ∀ e ∈ target.weights.entries, 0 ≤ Target.growth a.prices b.prices e.1 := by
    intro e he
    obtain ⟨change, hchange⟩ := hchange e he
    obtain ⟨start, hstart, hchange⟩ := Option.bind_eq_some_iff.1 hchange
    obtain ⟨stop, hstop, _⟩ := Option.bind_eq_some_iff.1 hchange
    rw [Target.growth, hstart, hstop]
    exact div_nonneg (hprices _ _ _ _ _ hb.prices hstop).le
      (hprices _ _ _ _ _ ha.prices hstart).le
  have hworth := hcomputed.abs_worth_sub_le_growth hpolicy hnonneg
  rw [hportfolio, ← h.2] at hworth
  have hgrown : ((Snapshot.assetsOf a (some b)).values.map fun m =>
      m.weight * m.priceChange.getD 0 / 100) = target.weights.entries.map fun e =>
        e.2 * (Target.growth a.prices b.prices e.1 - 1) := by
    rw [hweights, Table.values, Snapshot.assetsOf, Table.map, List.map_map, List.map_map]
    refine List.map_congr_left fun e he => ?_
    obtain ⟨change, hchange⟩ := hchange e (hweights ▸ he)
    rw [Snapshot.growth_of_changeUntil hchange]
    simp only [Function.comp_apply, hchange, Option.getD_some]
    ring
  have hkeys : (Snapshot.assetsOf a (some b)).keys = target.weights.entries.map Prod.fst := by
    rw [hweights, Table.keys, Snapshot.assetsOf, Table.map, List.map_map]
    rfl
  rw [← hgrown] at hworth
  rw [hkeys, List.map_map]
  exact hworth

/-- **The snapshots of a run explain its value curve.**  Of two in a row the first says by its
weights and price changes what the second is worth, but for what the rounding of its parts has grown
to, and each says by how much its value differs from that of the first of all. -/
theorem snapshots_explain_values {fundamentals : Option (FundamentalsStore α)}
    {formula : Formula α} {cancelled : Bool} {report : BacktestReport α}
    (h : run store fundamentals formula symbols config cancelled = .ok report)
    (hpolicy : config.weighting.Admissible) (hprices : store.PricesPositive) :
    report.snapshots.values.IsChain (Explains store symbols) ∧
      ∀ first ∈ report.snapshots.values.head?, 0 < first.value ∧
        ∀ s ∈ report.snapshots.values,
          s.valueChange = 100 * (s.value - first.value) / first.value := by
  obtain ⟨scores, last, hprocessed⟩ := processed_of_run h
  have hlast : Chained config last ∧ ∀ a ∈ last.samples, Sampled store symbols config a := by
    refine Except.foldlM_induction (P := fun s => Chained config s ∧
      ∀ a ∈ s.samples, Sampled store symbols config a) ?_ hprocessed.walked ⟨chained_start, ?_⟩
    · intro s date s' hs hday
      obtain ⟨prices, value, result, _, hvalue, _, hstep⟩ := dayStep_of_day hday
      exact ⟨hs.1.step hpolicy hvalue hstep, sampled_step hs.2 hday⟩
    · intro a ha
      cases ha
  obtain ⟨hchained, hsampled⟩ := hlast
  have hsnapshots : report.snapshots.values = Snapshot.list last.samples := by
    have hascending := hprocessed.accounted.rebalanced_ascending
    rw [hprocessed.run_eq] at h
    obtain ⟨_, _, h⟩ := Except.bind_eq_ok_iff.1 h
    rw [← congrArg BacktestReport.snapshots (Except.ok.inj h)]
    exact Snapshot.values_ofSamples hascending
  rw [hsnapshots]
  refine ⟨Snapshot.isChain_list (hchained.linked.imp_of_mem_imp fun a b ha hb hab =>
    explains_of_follows hpolicy hprices (hsampled a ha) (hsampled b hb) hab), ?_⟩
  intro first hfirst
  refine ⟨?_, fun s hs => Snapshot.valueChange_of_mem_list hfirst hs⟩
  cases hsamples : last.samples with
  | nil =>
    rw [hsamples] at hfirst
    cases hfirst
  | cons a samples =>
    rw [hsamples] at hfirst
    obtain rfl := Option.some.inj hfirst
    exact (hsampled a (by rw [hsamples]; exact List.mem_cons_self)).value_pos

/-- Three snapshots in a row.  The prices of all shares change after the first two of them, so that
these two explain the next. -/
theorem snapshots_explain_threeDays : ∃ report,
    run threeDays.priceStore none Scoring.priceToday ["AAPL", "GOOG", "MSFT"] tiltedDaily false =
      .ok report ∧ report.snapshots.values.length = 3 ∧
    (∀ s ∈ report.snapshots.values.take 2, ∀ m ∈ s.assets.values, m.priceChange.isSome = true) ∧
    threeDays.priceStore.PricesPositive ∧
    report.snapshots.values.IsChain (Explains threeDays.priceStore ["AAPL", "GOOG", "MSFT"]) ∧
    ∀ first ∈ report.snapshots.values.head?, 0 < first.value ∧ ∀ s ∈ report.snapshots.values,
      s.valueChange = 100 * (s.value - first.value) / first.value := by
  have hrun : (run threeDays.priceStore none Scoring.priceToday ["AAPL", "GOOG", "MSFT"]
      tiltedDaily false).toOption.any (fun report =>
        decide (report.snapshots.values.length = 3 ∧ ∀ s ∈ report.snapshots.values.take 2,
          ∀ m ∈ s.assets.values, m.priceChange.isSome = true)) = true := by
    decide +kernel
  obtain ⟨report, hreport, hsnapshots⟩ := Except.exists_of_toOption_any hrun
  obtain ⟨hlength, hchanges⟩ := of_decide_eq_true hsnapshots
  have hpolicy : tiltedDaily.weighting.Admissible := by
    show (0.0 : ℚ) < 0.5 ∧ (0.5 : ℚ) ≤ 1.0
    norm_num
  have hprices : threeDays.priceStore.PricesPositive := fun symbols date prices symbol x =>
    (threeDays.pricesPositive (by decide +kernel) (by decide +kernel) none).stored
  exact ⟨report, hreport, hlength, hchanges, hprices,
    snapshots_explain_values hreport hpolicy hprices⟩

end Backtest

end FactorPortfolio
