import FactorPortfolio.Proofs.Universe.Symbols
import FactorPortfolio.Proofs.Weighting.SumToOne
import FactorPortfolio.Settings.Build

/-!
# What passes the checks can be run

The checks of settings and the values made from them read each setting on their own.  They agree:
settings that pass both checks describe a backtest and a strategy, which hold what was checked and
what a run relies on (`built_of_checked`).  Whole numbers lie in 64 bits, so that those that pass a
check are kept when they are made into counts (`toCount_eq`).
-/

namespace FactorPortfolio

/-- What a run relies on in its configuration. -/
structure BacktestConfig.Sound (c : BacktestConfig Float) : Prop where
  ordered : c.start ≤ c.stop
  interval : 1 ≤ c.interval
  startingCash : c.startingCash.isFinite = true ∧ 0 < c.startingCash
  numTickers : 3 ≤ c.numTickers
  minTradeQuantity : c.minTradeQuantity.isFinite = true ∧ 0 ≤ c.minTradeQuantity
  weighting : c.weighting.Admissible
  workers : 1 ≤ c.workers

namespace Settings

variable {s : Settings}

/-! ### Single settings -/

theorem demand_eq_ok_iff {holds : Bool} {group name : String} {fault : SettingFault} :
    demand holds group name fault = .ok () ↔ holds = true := by
  rw [demand]
  split <;> simp_all

theorem int_le {group name : String} {default : Int} (h : default ≤ 9223372036854775807) :
    s.int group name default ≤ 9223372036854775807 := by
  rw [int]
  cases hread : (s.text? group name).bind Decimal.readInt64? with
  | none => exact h
  | some n =>
    obtain ⟨text, _, hn⟩ := Option.bind_eq_some_iff.1 hread
    have hn := (Option.filter_eq_some_iff.1 hn).2
    simp only [Bool.and_eq_true, decide_eq_true_eq] at hn
    exact hn.2

theorem toCount_eq {n : Int} (h : 0 ≤ n) (h' : n ≤ 9223372036854775807) :
    (toCount n : Int) = n := by
  rw [toCount]
  omega

theorem toCount_of_checkLeast {name group : String} {least : Nat} {default : Int}
    (hdefault : default ≤ 9223372036854775807)
    (h : checkLeast name least (s.int group name default) = .ok ()) :
    (toCount (s.int group name default) : Int) = s.int group name default ∧
      least ≤ toCount (s.int group name default) := by
  rw [checkLeast, demand_eq_ok_iff, decide_eq_true_eq] at h
  have hle : s.int group name default ≤ 9223372036854775807 := int_le hdefault
  have hcount := toCount_eq (by omega) hle
  exact ⟨hcount, by omega⟩

theorem dates_of_checkDates (h : s.checkDates = .ok ()) :
    ∃ start stop, s.startDate = .ok start ∧ s.endDate = .ok stop ∧ start ≤ stop := by
  obtain ⟨start, hstart, h⟩ := Except.bind_eq_ok_iff.1 h
  obtain ⟨stop, hstop, h⟩ := Except.bind_eq_ok_iff.1 h
  rw [demand_eq_ok_iff, decide_eq_true_eq] at h
  exact ⟨start, stop, hstart, hstop, h⟩

/-- The weighting that settings ask for: equal parts by name, else a tilt. -/
def requestedWeighting (s : Settings) : WeightingPolicy Float :=
  if s.weightingName? = some "equal" then .equal else .zScoreTilt s.factorIntensity

theorem weighting_of_checked (hname : s.checkWeightingName = .ok ())
    (hintensity : s.checkIntensity = .ok ()) :
    s.weighting = .ok s.requestedWeighting ∧ s.requestedWeighting.Admissible := by
  rw [checkWeightingName, demand_eq_ok_iff] at hname
  rw [checkIntensity, demand_eq_ok_iff, Bool.and_eq_true, decide_eq_true_eq,
    decide_eq_true_eq] at hintensity
  rw [weighting, requestedWeighting]
  cases h : s.weightingName? with
  | none => exact ⟨rfl, hintensity⟩
  | some name =>
    have hlisted : name = "zscore" ∨ name = "equal" := by
      rw [h] at hname
      simpa [weightings] using hname
    rcases hlisted with rfl | rfl
    · exact ⟨rfl, hintensity⟩
    · exact ⟨rfl, trivial⟩

/-! ### What is made from checked settings -/

/-- A backtest and a strategy hold the values that are read from settings. -/
structure Describes (s : Settings) (config : BacktestConfig Float) (strategy : Strategy) :
    Prop where
  start : s.startDate = .ok config.start
  stop : s.endDate = .ok config.stop
  interval : config.interval = s.rebalanceInterval
  startingCash : config.startingCash = s.startingCash
  minTradeQuantity : config.minTradeQuantity = s.minTradeQuantity
  weighting : config.weighting = s.requestedWeighting
  formula : s.formula = .ok strategy.formula
  symbols : s.symbols = .ok strategy.symbols

/-- **Settings that pass both checks describe a backtest and a strategy that can be run**: the
values made from them are those that were checked. -/
theorem built_of_checked (hbacktest : s.checkBacktest = .ok ())
    (hstrategy : s.checkStrategy = .ok ()) :
    ∃ config strategy, s.backtest = .ok config ∧ s.strategy = .ok strategy ∧ config.Sound ∧
      s.Describes config strategy ∧
      (config.numTickers : Int) = s.numTickers ∧ (config.workers : Int) = s.workers ∧
      Symbols.Readable strategy.symbols ∧ strategy.symbols ≠ [] := by
  have hstrategy' := hstrategy
  obtain ⟨formula, hformula, hstrategy⟩ := Except.bind_eq_ok_iff.1 hstrategy
  obtain ⟨symbols, hsymbols, hstrategy⟩ := Except.bind_eq_ok_iff.1 hstrategy
  obtain ⟨_, hname, hintensity⟩ := Except.bind_eq_ok_iff.1 hstrategy
  obtain ⟨_, hdates, hbacktest⟩ := Except.bind_eq_ok_iff.1 hbacktest
  obtain ⟨_, hcash, hbacktest⟩ := Except.bind_eq_ok_iff.1 hbacktest
  obtain ⟨_, htickers, hbacktest⟩ := Except.bind_eq_ok_iff.1 hbacktest
  obtain ⟨_, hinterval, hbacktest⟩ := Except.bind_eq_ok_iff.1 hbacktest
  obtain ⟨_, hminTrade, hworkers⟩ := Except.bind_eq_ok_iff.1 hbacktest
  obtain ⟨start, stop, hstart, hstop, hordered⟩ := dates_of_checkDates hdates
  obtain ⟨hweighting, hadmissible⟩ := weighting_of_checked hname hintensity
  obtain ⟨htickers, hthree⟩ := toCount_of_checkLeast (by decide) htickers
  obtain ⟨hworkers, hone⟩ := toCount_of_checkLeast (by decide) hworkers
  rw [checkLeast, demand_eq_ok_iff, decide_eq_true_eq] at hinterval
  rw [checkStartingCash, demand_eq_ok_iff, Bool.and_eq_true, decide_eq_true_eq] at hcash
  rw [checkMinTradeQuantity, demand_eq_ok_iff, Bool.and_eq_true, decide_eq_true_eq] at hminTrade
  refine ⟨⟨start, stop, s.rebalanceInterval, s.startingCash, toCount s.numTickers,
    s.minTradeQuantity, s.requestedWeighting, toCount s.workers⟩, ⟨formula, symbols⟩, ?_, ?_,
    ⟨hordered, hinterval, hcash, hthree, hminTrade, hadmissible, hone⟩,
    ⟨hstart, hstop, rfl, rfl, rfl, rfl, hformula, hsymbols⟩, htickers, hworkers, ?_⟩
  · rw [backtest, hstart, hstop, hweighting]
    rfl
  · rw [strategy, hstrategy', hformula, hsymbols]
    rfl
  · obtain ⟨text, _, hread⟩ := Except.bind_eq_ok_iff.1 hsymbols
    exact Symbols.readable_of_parse (Except.mapError_eq_ok_iff.1 hread)

def tiltedText : String :=
  "[backtest]\nstart_date = 2022-01-03\nend_date = 2023-12-29\nnum_tickers = 5\n" ++
  "[strategy]\nexpression = price(currentDate)\nuniverse = aapl, MSFT\nfactor_intensity = 0.5\n"

/-- A text of settings that pass both checks, with a count and the symbols that are read from it. -/
theorem built_of_checked_tilted : ∃ s, Settings.parse tiltedText = .ok s ∧
    s.checkBacktest = .ok () ∧ s.checkStrategy = .ok () ∧
    ∃ config strategy, s.backtest = .ok config ∧ s.strategy = .ok strategy ∧ config.Sound ∧
      s.Describes config strategy ∧ config.numTickers = 5 ∧ strategy.symbols = ["AAPL", "MSFT"] ∧
      (config.numTickers : Int) = s.numTickers ∧ (config.workers : Int) = s.workers ∧
      Symbols.Readable strategy.symbols ∧ strategy.symbols ≠ [] := by
  have hchecks : (Settings.parse tiltedText).toOption.any (fun s =>
      s.checkBacktest.toOption.any (fun _ => true) &&
        s.checkStrategy.toOption.any (fun _ => true) && decide (s.numTickers = 5) &&
          s.symbols.toOption.any fun symbols => decide (symbols = ["AAPL", "MSFT"])) = true := by
    decide +kernel
  obtain ⟨s, hs, hchecks⟩ := Except.exists_of_toOption_any hchecks
  simp only [Bool.and_eq_true, decide_eq_true_eq] at hchecks
  obtain ⟨⟨⟨hbacktest, hstrategy⟩, hfive⟩, hsymbols⟩ := hchecks
  obtain ⟨⟨⟩, hbacktest, _⟩ := Except.exists_of_toOption_any hbacktest
  obtain ⟨⟨⟩, hstrategy, _⟩ := Except.exists_of_toOption_any hstrategy
  obtain ⟨symbols, hsymbols, hread⟩ := Except.exists_of_toOption_any hsymbols
  obtain rfl := of_decide_eq_true hread
  obtain ⟨config, strategy, hconfig, hmade, hsound, hdescribes, hcount, hrest⟩ :=
    built_of_checked hbacktest hstrategy
  refine ⟨s, hs, hbacktest, hstrategy, config, strategy, hconfig, hmade, hsound, hdescribes, ?_,
    ?_, hcount, hrest⟩
  · omega
  · exact Except.ok.inj (hdescribes.symbols.symm.trans hsymbols)

end Settings

end FactorPortfolio
