import FactorPortfolio.Formula.Parser
import FactorPortfolio.Proofs.Cache.Quotes
import FactorPortfolio.Proofs.Scoring.Batch
import FactorPortfolio.Proofs.Target.Compute
import FactorPortfolio.Rebalance
import Mathlib.Tactic.Common

/-!
# What a plan is made of

A plan takes the stored prices of the latest trading day and puts the quotes that are later in
their place (`get?_quoted`).  Its date is that day or later, and no earlier than any of those
quotes (`stored_le_quoted`, `quote_le_quoted`).  The scores of that date and what the current
portfolio is worth make its target (`parts_of_plan`).

What the formula `priceToday` asks for in a plan are the prices of its date (`lists_priceToday`).
-/

namespace FactorPortfolio.Rebalancer

variable {α : Type} {r : Rebalancer α} {symbols : List Symbol} {stored : Date}
  {quotes : Table Symbol (Quote α)} {day : DayPrices α}

theorem latestDay_eq_ok_iff :
    r.latestDay = .ok stored ↔ r.loader.prices.latestDay = .ok (some stored) := by
  rw [latestDay]
  cases r.loader.prices.latestDay with
  | error e => exact iff_of_false nofun nofun
  | ok last =>
    cases last with
    | none => exact iff_of_false nofun nofun
    | some day => simp [liftStore, Except.mapError, Bind.bind, Except.bind, Pure.pure, Except.pure]

def quoted (stored : Date) (prices : Table Symbol α) (quotes : Table Symbol (Quote α)) :
    DayPrices α :=
  quotes.entries.foldl (addQuote stored) ⟨stored, prices⟩

theorem currentPrices_eq (r : Rebalancer α) (symbols : List Symbol) :
    r.currentPrices symbols = (do
      let stored ← r.latestDay
      let prices ← liftStore (r.loader.prices.pricesOn symbols stored)
      let quotes ← liftStore (r.loader.quotesFor symbols)
      return quoted stored prices quotes) := by
  refine bind_congr fun stored => bind_congr fun prices => ?_
  rw [Loader.quotesFor]
  cases r.loader.quotes <;> rfl

theorem currentPrices_eq_ok_iff : r.currentPrices symbols = .ok day ↔ ∃ stored prices quotes,
    r.latestDay = .ok stored ∧ r.loader.prices.pricesOn symbols stored = .ok prices ∧
      r.loader.quotesFor symbols = .ok quotes ∧ quoted stored prices quotes = day := by
  simp only [currentPrices_eq, Except.bind_eq_ok_iff, liftStore, Except.mapError_eq_ok_iff,
    Except.pure_eq_ok_iff, exists_and_left]

/-! ### Putting quotes in -/

theorem quoted_filter (stored : Date) (prices : Table Symbol α)
    (quotes : Table Symbol (Quote α)) :
    quoted stored prices (quotes.filter fun _ q => stored < q.date) =
      quoted stored prices quotes := by
  have hskip : (fun (d : DayPrices α) (e : Symbol × Quote α) =>
      if decide (stored < e.2.date) = true then addQuote stored d e else d) = addQuote stored := by
    funext d e
    by_cases h : stored < e.2.date
    · rw [if_pos (decide_eq_true h)]
    · rw [if_neg (by simpa using h), addQuote, if_neg h]
  rw [quoted, quoted, Table.filter, List.foldl_filter, hskip]

/-- **A price of a plan is the one of a quote later than the stored day**, or else the stored
one. -/
theorem get?_quoted (stored : Date) (prices : Table Symbol α) (quotes : Table Symbol (Quote α))
    (symbol : Symbol) : (quoted stored prices quotes).prices.get? symbol =
      (((quotes.get? symbol).filter fun q => stored < q.date).map Quote.price).or
        (prices.get? symbol) := by
  have hself : ∀ (day : DayPrices α) (q : Quote α),
      (addQuote stored day (symbol, q)).prices.get? symbol =
        if stored < q.date then some q.price else day.prices.get? symbol := by
    intro day q
    by_cases hd : stored < q.date <;> simp [addQuote, hd]
  have hother : ∀ (day : DayPrices α) (e : Symbol × Quote α), e.1 ≠ symbol →
      (addQuote stored day e).prices.get? symbol = day.prices.get? symbol := by
    intro day e hne
    rw [addQuote]
    split
    · exact Table.get?_insert_of_ne _ (Ne.symm hne) _
    · rfl
  refine (Table.view_foldl_entries (fun day : DayPrices α => day.prices.get? symbol)
    (fun q price => if stored < q.date then some q.price else price) hself hother quotes
    ⟨stored, prices⟩).trans ?_
  cases quotes.get? symbol with
  | none => rfl
  | some q => by_cases hd : stored < q.date <;> simp [Option.filter_some, hd]

theorem le_date_foldl_addQuote (l : List (Symbol × Quote α)) (day : DayPrices α) :
    day.date ≤ (l.foldl (addQuote stored) day).date ∧
      ∀ e ∈ l, stored < e.2.date → e.2.date ≤ (l.foldl (addQuote stored) day).date := by
  induction l generalizing day with
  | nil => exact ⟨Date.le_refl _, fun e he => by cases he⟩
  | cons e l ih =>
    obtain ⟨hday, hl⟩ := ih (addQuote stored day e)
    have hstep : day.date ≤ (addQuote stored day e).date ∧
        (stored < e.2.date → e.2.date ≤ (addQuote stored day e).date) := by
      rw [addQuote]
      split
      · exact ⟨Date.le_max_left _ _, fun _ => Date.le_max_right _ _⟩
      · rename_i hd
        exact ⟨Date.le_refl _, fun h => absurd h hd⟩
    refine ⟨Date.le_trans hstep.1 hday, fun e' he' hd => ?_⟩
    rcases List.mem_cons.1 he' with rfl | he'
    · exact Date.le_trans (hstep.2 hd) hday
    · exact hl e' he' hd

theorem stored_le_quoted (stored : Date) (prices : Table Symbol α)
    (quotes : Table Symbol (Quote α)) : stored ≤ (quoted stored prices quotes).date :=
  (le_date_foldl_addQuote _ _).1

/-- **A quote that counts is not later than the plan.** -/
theorem quote_le_quoted {prices : Table Symbol α} {symbol : Symbol} {q : Quote α}
    (h : quotes.get? symbol = some q) (hd : stored < q.date) :
    q.date ≤ (quoted stored prices quotes).date :=
  (le_date_foldl_addQuote _ _).2 _ (Table.get?_eq_some_iff.1 h) hd

/-! ### The parts of a plan -/

variable [Scalar α]

structure Parts (r : Rebalancer α) (formula : Formula α) (symbols : List Symbol)
    (current : Portfolio α) (day : DayPrices α) (result : ScoreResult α) (p : RebalancePlan α) :
    Prop where
  prices : r.currentPrices symbols = .ok day
  scores : scoreDay r.loader formula symbols day.date = .ok result
  date_eq : p.date = day.date
  worth : Backtest.holdingValue current day.prices day.date = .ok p.value
  target : Target.Computed day.date result.scores day.prices r.numTickers p.value r.weighting
    p.target

/-- A plan that has been made keeps of the trades to its target what the filter keeps. -/
theorem trades_of_plan {formula : Formula α} {current : Portfolio α} {minTrade : α}
    {ledger : ExcessLedger α} {p : RebalancePlan α}
    (h : (r.plan formula symbols current minTrade ledger).1 = .ok p) :
    ∃ day result trades, r.Parts formula symbols current day result p ∧
      Trade.diff current p.target.portfolio day.prices = .ok trades ∧
      (p.trades, (r.plan formula symbols current minTrade ledger).2) =
        Trade.filterSmall minTrade ledger trades := by
  rw [plan] at h ⊢
  split at h
  · cases h
  rename_i proposed hproposed
  obtain rfl := Except.ok.inj h
  obtain ⟨day, hday, hproposed⟩ := Except.bind_eq_ok_iff.1 hproposed
  obtain ⟨result, hresult, hproposed⟩ := Except.bind_eq_ok_iff.1 hproposed
  obtain ⟨value, hvalue, hproposed⟩ := Except.bind_eq_ok_iff.1 hproposed
  obtain ⟨target, htarget, hproposed⟩ := Except.bind_eq_ok_iff.1 hproposed
  obtain ⟨trades, htrades, hproposed⟩ := Except.bind_eq_ok_iff.1 hproposed
  obtain rfl := Except.pure_eq_ok_iff.1 hproposed
  refine ⟨day, result, trades, ⟨hday, hresult, rfl, hvalue, ?_⟩,
    Except.mapError_eq_ok_iff.1 htrades, rfl⟩
  exact Target.computed_of_compute (Except.mapError_eq_ok_iff.1 htarget)

theorem parts_of_plan {formula : Formula α} {current : Portfolio α} {minTrade : α}
    {ledger : ExcessLedger α} {p : RebalancePlan α}
    (h : (r.plan formula symbols current minTrade ledger).1 = .ok p) :
    ∃ day result, r.Parts formula symbols current day result p := by
  obtain ⟨day, result, _, hparts, _⟩ := trades_of_plan h
  exact ⟨day, result, hparts⟩

theorem get?_scores_scoreDay {l : Loader α} {formula : Formula α} {date : Date}
    {result : ScoreResult α} (h : scoreDay l formula symbols date = .ok result) :
    ∃ cache, l.load (formula.requirements (Scoring.jobs [date] symbols)) = .ok cache ∧
      ∀ symbol x, result.scores.get? symbol = some x ↔ symbol ∈ symbols ∧
        (formula.evaluate symbol date).run cache.source = .ok x := by
  obtain ⟨days, hdays, h⟩ := Except.bind_eq_ok_iff.1 h
  obtain rfl := Except.pure_eq_ok_iff.1 h
  obtain ⟨_, _, cache, hload, _, hout⟩ := Scoring.score_eq_ok_iff.1 hdays
  have hdate := (Scoring.mem_dates_of_score hdays).2 (List.mem_singleton.2 rfl : date ∈ [date])
  refine ⟨cache, hload, fun symbol x => ?_⟩
  rw [hout, if_pos hdate, Option.getD_some,
    Scoring.get?_scores_resultOf Scoring.outcomes_functional, Scoring.mem_outcomes,
    Scoring.mem_jobs]
  simp

/-! ### The price of the day -/

/-- What the scores of a plan ask for. -/
def requirements (formula : Formula α) (symbols : List Symbol) (day : DayPrices α) :
    Requirements :=
  formula.requirements (Scoring.jobs [day.date] symbols)

open Scoring (priceToday eval_priceToday)

theorem lists_priceToday {q : Question} :
    (requirements (priceToday : Formula α) symbols day).Lists q ↔
      ∃ symbol ∈ symbols, q = .price symbol day.date := by
  have hasked : ∀ symbol date, ((priceToday : Formula α).tree.eval symbol date).asked
      standInSource = [.price symbol date] := by
    intro symbol date
    rw [eval_priceToday]
    rfl
  rw [requirements, Formula.lists_requirements]
  simp only [hasked, List.mem_singleton]
  constructor
  · rintro ⟨⟨date, symbol⟩, hjob, rfl⟩
    obtain ⟨hdate, hsymbol⟩ := Scoring.mem_jobs.1 hjob
    exact ⟨symbol, hsymbol, by rw [List.mem_singleton.1 hdate]⟩
  · rintro ⟨symbol, hsymbol, rfl⟩
    exact ⟨⟨day.date, symbol⟩, Scoring.mem_jobs.2 ⟨List.mem_singleton.2 rfl, hsymbol⟩, rfl⟩

theorem wants_priceToday {symbol : Symbol} {low high : Date} :
    (requirements (priceToday : Formula α) symbols day).Wants symbol low high ↔
      symbol ∈ symbols ∧ low = day.date ∧ high = day.date := by
  simp only [Requirements.Wants, lists_priceToday, Question.price.injEq, reduceCtorEq, and_false,
    exists_false, or_false]
  constructor
  · rintro ⟨⟨_, hsymbol, rfl, rfl⟩, rfl⟩
    exact ⟨hsymbol, rfl, rfl⟩
  · rintro ⟨hsymbol, rfl, rfl⟩
    exact ⟨⟨symbol, hsymbol, rfl, rfl⟩, rfl⟩

theorem not_measures_priceToday {symbol : Symbol} :
    ¬ (requirements (priceToday : Formula α) symbols day).Measures symbol := by
  rintro ⟨start, stop, h⟩
  obtain ⟨_, _, h⟩ := lists_priceToday.1 h
  cases h

/-- Plans in equal parts for three shares, with the prices and the quotes of a store. -/
def ofStore (s : MemoryStore Float) : Rebalancer Float :=
  ⟨⟨s.priceStore, none, some s.quoteSource⟩, 3, .equal⟩

end FactorPortfolio.Rebalancer
