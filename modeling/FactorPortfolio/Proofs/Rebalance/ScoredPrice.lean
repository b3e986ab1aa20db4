import FactorPortfolio.Proofs.Rebalance.Plan
import Mathlib.Tactic.Common

/-!
# The price that is scored and the price that is traded at

A plan trades at the prices of one day, and at quotes later than it.  A formula is scored with the
latest price of a week.  `score_eq_price_iff` says when the price of the day comes out as the same
for both: exactly if what is stored after the day of the traded price, on dates that are no trading
days for want of symbols, does not say otherwise.
-/

namespace FactorPortfolio

variable {α : Type}

theorem Series.Latest.unique {s : Series α} {p : Date → Prop} {x x' : α} (h : s.Latest p x)
    (h' : s.Latest p x') : x = x' := by
  obtain ⟨d, hd, hx, hmax⟩ := h
  obtain ⟨d', hd', hx', hmax'⟩ := h'
  have hle : d ≤ d' := by
    by_contra hlt
    rw [hmax' d (Date.not_le.1 hlt) hd] at hx
    cases hx
  have hle' : d' ≤ d := by
    by_contra hlt
    rw [hmax d' (Date.not_le.1 hlt) hd'] at hx'
    cases hx'
  obtain rfl := Date.le_antisymm hle hle'
  exact Option.some.inj (hx.symm.trans hx')

/-- The quotes that a loader is given are those of a table. -/
def Loader.Quotes (l : Loader α) (live : Symbol → Option (Quote α)) : Prop :=
  ∀ symbols quotes, l.quotesFor symbols = .ok quotes →
    ∀ symbol ∈ symbols, quotes.get? symbol = live symbol

theorem MemoryStore.quotes_quoteSource (s : MemoryStore α) {l : Loader α}
    (h : l.quotes = some s.quoteSource) : l.Quotes s.quotes.get? := by
  intro symbols quotes hquotes symbol hsymbol
  rw [Loader.quotesFor, h] at hquotes
  obtain ⟨_, rfl⟩ := s.guarded_eq_ok_iff.1 hquotes
  exact Option.ext fun q =>
    (Table.get?_ofList_filterMap s.quotes.get? symbols symbol q).trans (and_iff_right hsymbol)

namespace Rebalancer

open Scoring (priceToday run_priceToday)

/-- The date of the price that a plan trades a symbol at. -/
def tradedDate (stored : Date) (live : Symbol → Option (Quote α)) (symbol : Symbol) : Date :=
  (live symbol).elim stored fun q => stored.max q.date

/-- The dates of the week of a plan that are later than that. -/
def AfterTraded (stored : Date) (live : Symbol → Option (Quote α)) (day : DayPrices α)
    (symbol : Symbol) (date : Date) : Prop :=
  tradedDate stored live symbol < date ∧ day.date.back gapDays ≤ date ∧ date ≤ day.date

variable {r : Rebalancer α} {symbols : List Symbol} {stored : Date} {day : DayPrices α}
  {prices : Symbol → Series α} {trades : Date → Prop} {live : Symbol → Option (Quote α)}
  {symbol : Symbol}

theorem tradedDate_of_lt {q : Quote α} (hlive : live symbol = some q) (h : stored < q.date) :
    tradedDate stored live symbol = q.date := by
  rw [tradedDate, hlive]
  exact Date.max_eq_right (Date.le_of_lt h)

theorem tradedDate_of_not_lt (h : ∀ q, live symbol = some q → ¬ stored < q.date) :
    tradedDate stored live symbol = stored := by
  rw [tradedDate]
  cases hlive : live symbol with
  | none => rfl
  | some q =>
    exact Date.le_antisymm (Date.max_le (Date.le_refl _) (Date.not_lt.1 (h q hlive)))
      (Date.le_max_left _ _)

theorem stored_le_tradedDate : stored ≤ tradedDate stored live symbol := by
  rw [tradedDate]
  cases live symbol with
  | none => exact Date.le_refl stored
  | some q => exact Date.le_max_left stored q.date

/-- **The price that a plan trades at** is that of a quote later than the stored day, or else the
stored one. -/
theorem get?_prices_eq (hk : r.loader.prices.Keeps prices trades) (hq : r.loader.Quotes live)
    (hstored : r.latestDay = .ok stored) (hday : r.currentPrices symbols = .ok day)
    (hsymbol : symbol ∈ symbols) : day.prices.get? symbol =
      (((live symbol).filter fun q => stored < q.date).map Quote.price).or
        ((prices symbol).get? stored) := by
  obtain ⟨stored', pricesOn, quotes, hstored', hprices, hquotes, rfl⟩ :=
    currentPrices_eq_ok_iff.1 hday
  obtain rfl := Except.ok.inj (hstored.symm.trans hstored')
  have hon : pricesOn.get? symbol = (prices symbol).get? stored :=
    Option.ext fun x => (hk.pricesOn _ _ _ hprices symbol x).trans (and_iff_right hsymbol)
  rw [get?_quoted, hq _ _ hquotes symbol hsymbol, hon]

theorem tradedDate_le (hq : r.loader.Quotes live) (hstored : r.latestDay = .ok stored)
    (hday : r.currentPrices symbols = .ok day) (hsymbol : symbol ∈ symbols) :
    tradedDate stored live symbol ≤ day.date := by
  obtain ⟨stored', pricesOn, quotes, hstored', _, hquotes, rfl⟩ := currentPrices_eq_ok_iff.1 hday
  obtain rfl := Except.ok.inj (hstored.symm.trans hstored')
  have hle := stored_le_quoted stored pricesOn quotes
  rw [tradedDate]
  cases hlive : live symbol with
  | none => exact hle
  | some q =>
    have hget : quotes.get? symbol = some q := (hq _ _ hquotes symbol hsymbol).trans hlive
    refine Date.max_le hle ?_
    by_cases hlater : stored < q.date
    · exact quote_le_quoted hget hlater
    · exact Date.le_trans (Date.not_lt.1 hlater) hle

variable [Scalar α]

theorem spans_priceToday (hsymbol : symbol ∈ symbols) {date : Date} :
    (requirements (priceToday : Formula α) symbols day).Spans date ↔
      day.date.back gapDays ≤ date ∧ date ≤ day.date := by
  simp only [Requirements.Spans, wants_priceToday]
  constructor
  · rintro ⟨⟨_, _, _, ⟨_, rfl, _⟩, hlow⟩, _, _, _, ⟨_, _, rfl⟩, hhigh⟩
    exact ⟨hlow, hhigh⟩
  · rintro ⟨hlow, hhigh⟩
    exact ⟨⟨symbol, _, _, ⟨hsymbol, rfl, rfl⟩, hlow⟩, symbol, _, _, ⟨hsymbol, rfl, rfl⟩, hhigh⟩

theorem reaches_priceToday (hsymbol : symbol ∈ symbols) {date : Date} :
    (requirements (priceToday : Formula α) symbols day).Reaches symbol date ↔
      day.date.back gapDays ≤ date ∧ date ≤ day.date := by
  simp only [Requirements.Reaches, wants_priceToday]
  constructor
  · rintro ⟨⟨_, _, ⟨_, rfl, _⟩, hlow⟩, _, _, ⟨_, _, rfl⟩, hhigh⟩
    exact ⟨hlow, hhigh⟩
  · rintro ⟨hlow, hhigh⟩
    exact ⟨⟨_, _, ⟨hsymbol, rfl, rfl⟩, hlow⟩, _, _, ⟨hsymbol, rfl, rfl⟩, hhigh⟩

theorem get?_merged (hk : r.loader.prices.Keeps prices trades) (hq : r.loader.Quotes live)
    (hsymbol : symbol ∈ symbols) {f : Fetched α} {quotes : Table Symbol (Quote α)}
    (hf : r.loader.Stored (requirements priceToday symbols day) f)
    (hquotes : r.loader.quotesFor (requirements (priceToday : Formula α) symbols
      day).symbolWindows.keys = .ok quotes) {date : Date}
    (hdate : day.date.back gapDays ≤ date ∧ date ≤ day.date) :
    Table.get? ((f.mergeQuotes quotes).seriesOf symbol) date =
      (((live symbol).filter fun q => f.isFresh q && decide (q.date = date)).map Quote.price).or
        ((prices symbol).get? date) := by
  have hwants :
      (requirements (priceToday : Formula α) symbols day).Wants symbol day.date day.date :=
    wants_priceToday.2 ⟨hsymbol, rfl, rfl⟩
  have hkeys : symbol ∈ (requirements (priceToday : Formula α) symbols day).symbolWindows.keys := by
    obtain ⟨w, hw⟩ := Requirements.exists_window_iff.2 ⟨_, _, hwants⟩
    rw [Table.mem_keys_iff, Table.contains, hw]
    rfl
  have hstored : Table.get? (f.seriesOf symbol) date = (prices symbol).get? date :=
    Option.ext fun x => (hf.get?_seriesOf hk.points hwants).trans
      (and_iff_right ((reaches_priceToday hsymbol).2 hdate))
  rw [Fetched.get?_seriesOf_mergeQuotes, hq _ _ hquotes symbol hkeys, hstored]

variable {f : Fetched α} {quotes : Table Symbol (Quote α)}

theorem get?_merged_tradedDate (hk : r.loader.prices.Keeps prices trades)
    (hq : r.loader.Quotes live) (hstored : r.latestDay = .ok stored)
    (hday : r.currentPrices symbols = .ok day) (hsymbol : symbol ∈ symbols)
    (hf : r.loader.Stored (requirements priceToday symbols day) f)
    (hquotes : r.loader.quotesFor (requirements (priceToday : Formula α) symbols
      day).symbolWindows.keys = .ok quotes)
    (hdate : day.date.back gapDays ≤ tradedDate stored live symbol) :
    Table.get? ((f.mergeQuotes quotes).seriesOf symbol) (tradedDate stored live symbol) =
      day.prices.get? symbol := by
  obtain ⟨htrades, hlast⟩ := (hk.latestDay _ (latestDay_eq_ok_iff.1 hstored) stored).1 rfl
  have hle := tradedDate_le hq hstored hday hsymbol
  rw [get?_prices_eq hk hq hstored hday hsymbol]
  by_cases hlater : ∃ q, live symbol = some q ∧ stored < q.date
  · -- the quote is later than all trading days, so it is merged
    obtain ⟨q, hlive, hlater⟩ := hlater
    have hfresh : f.isFresh q = true := (hf.isFresh_iff hk).2 fun d _ hd =>
      Date.lt_of_le_of_lt (hlast d hd) hlater
    rw [tradedDate_of_lt hlive hlater] at hdate hle ⊢
    rw [get?_merged hk hq hsymbol hf hquotes ⟨hdate, hle⟩, hlive]
    simp [Option.filter_some, hfresh, hlater]
  · -- the stored day is in the week of the plan, and no quote is later than it
    have hstale : ∀ q, live symbol = some q → ¬ stored < q.date :=
      fun q hlive hlt => hlater ⟨q, hlive, hlt⟩
    rw [tradedDate_of_not_lt hstale] at hdate hle ⊢
    rw [get?_merged hk hq hsymbol hf hquotes ⟨hdate, hle⟩]
    have hspans := (spans_priceToday hsymbol).2 ⟨hdate, hle⟩
    cases hlive : live symbol with
    | none => rfl
    | some q =>
      have hnot : f.isFresh q = false := by
        rw [Bool.eq_false_iff]
        exact fun hfresh => hstale q hlive ((hf.isFresh_iff hk).1 hfresh stored hspans htrades)
      simp [Option.filter_some, hnot, hstale q hlive]

/-- **The scored price** is the latest stored one after the date of the traded price, if there is
one in the week, and the traded price otherwise. -/
theorem scored_cases (hk : r.loader.prices.Keeps prices trades) (hq : r.loader.Quotes live)
    (hstored : r.latestDay = .ok stored) (hday : r.currentPrices symbols = .ok day)
    (hsymbol : symbol ∈ symbols)
    (hf : r.loader.Stored (requirements priceToday symbols day) f)
    (hquotes : r.loader.quotesFor (requirements (priceToday : Formula α) symbols
      day).symbolWindows.keys = .ok quotes) {price score : α}
    (hprice : day.prices.get? symbol = some price)
    (hscore : ((f.mergeQuotes quotes).seriesOf symbol).latestWithin day.date = some score) :
    (prices symbol).Latest (AfterTraded stored live day symbol) score ∨
      (∀ x, ¬ (prices symbol).Latest (AfterTraded stored live day symbol) x) ∧ score = price := by
  obtain ⟨d, hweek, hd, hmax⟩ := (Series.latestWithin_eq_some_iff _).1 hscore
  have hafter : ∀ d', AfterTraded stored live day symbol d' →
      Table.get? ((f.mergeQuotes quotes).seriesOf symbol) d' = (prices symbol).get? d' := by
    rintro d' ⟨hlt, hweek'⟩
    rw [get?_merged hk hq hsymbol hf hquotes hweek']
    cases hlive : live symbol with
    | none => rfl
    | some q =>
      have hne : q.date ≠ d' := by
        rintro rfl
        rw [tradedDate, hlive] at hlt
        exact Date.not_lt.2 (Date.le_max_right _ _) hlt
      simp [Option.filter_some, hne]
  by_cases hlt : tradedDate stored live symbol < d
  · refine .inl ⟨d, ⟨hlt, hweek⟩, ?_, fun d' hd' hp => ?_⟩
    · rw [← hafter d ⟨hlt, hweek⟩, hd]
    · rw [← hafter d' hp, hmax d' hd' hp.2]
  · have hle := Date.not_lt.1 hlt
    refine .inr ⟨?_, ?_⟩
    · rintro x ⟨d', hp, hx, _⟩
      rw [← hafter d' hp, hmax d' (Date.lt_of_le_of_lt hle hp.1) hp.2] at hx
      cases hx
    · have hback := Date.le_trans hweek.1 hle
      have hat := get?_merged_tradedDate hk hq hstored hday hsymbol hf hquotes hback
      rcases Date.lt_or_eq_of_le hle with hlt' | heq
      · rw [hmax _ hlt' ⟨hback, tradedDate_le hq hstored hday hsymbol⟩, hprice] at hat
        cases hat
      · rw [heq, hat, hprice] at hd
        exact (Option.some.inj hd).symm

theorem exists_fetched_of_score {day : DayPrices α} {result : ScoreResult α} {score : α}
    (hresult : scoreDay r.loader priceToday symbols day.date = .ok result)
    (hscore : result.scores.get? symbol = some score) :
    symbol ∈ symbols ∧ ∃ f quotes,
      r.loader.Stored (requirements priceToday symbols day) f ∧
      r.loader.quotesFor (requirements (priceToday : Formula α) symbols
        day).symbolWindows.keys = .ok quotes ∧
      ((f.mergeQuotes quotes).seriesOf symbol).latestWithin day.date = some score := by
  obtain ⟨cache, hload, hscores⟩ := get?_scores_scoreDay hresult
  obtain ⟨hsymbol, hrun⟩ := (hscores symbol score).1 hscore
  obtain ⟨fetched, hloaded⟩ := Loader.loaded_of_load hload
  have hwants :
      (requirements (priceToday : Formula α) symbols day).Wants symbol day.date day.date :=
    wants_priceToday.2 ⟨hsymbol, rfl, rfl⟩
  obtain ⟨f, quotes, hf, hquotes, rfl⟩ := (Loader.fetchFor_eq_ok_iff hwants).1 hloaded.fetch_eq
  refine ⟨hsymbol, f, quotes, hf, hquotes, ?_⟩
  have hprice := Except.mapError_eq_ok_iff.1 (run_priceToday hrun)
  rw [Cache.price] at hprice
  split at hprice
  · rename_i x hx
    obtain rfl := Except.ok.inj hprice
    rw [← Fetched.price?_eq _ ⟨symbol, day.date⟩]
    exact ((hloaded.price _ _).1 hx).2
  · cases hprice

/-- What a plan for the price of the day knows of a symbol that it selects. -/
theorem selected_of_plan (hk : r.loader.prices.Keeps prices trades) (hq : r.loader.Quotes live)
    {current : Portfolio α} {minTrade : α} {ledger : ExcessLedger α} {p : RebalancePlan α}
    (h : (r.plan priceToday symbols current minTrade ledger).1 = .ok p) :
    ∃ stored day, r.latestDay = .ok stored ∧ r.currentPrices symbols = .ok day ∧
      p.date = day.date ∧
      ∀ symbol score, p.target.scores.get? symbol = some score → ∃ weight price,
        p.target.weights.get? symbol = some weight ∧ day.prices.get? symbol = some price ∧
        p.target.portfolio.positions.get? symbol =
          (if Target.round3 (p.value * weight) / price == 0.0 then none
            else some (Target.round3 (p.value * weight) / price)) ∧
        ((prices symbol).Latest (AfterTraded stored live day symbol) score ∨
          (∀ x, ¬ (prices symbol).Latest (AfterTraded stored live day symbol) x) ∧
            score = price) := by
  obtain ⟨day, result, hparts⟩ := parts_of_plan h
  obtain ⟨stored, _, _, hstored, _⟩ := currentPrices_eq_ok_iff.1 hparts.prices
  refine ⟨stored, day, hstored, hparts.prices, hparts.date_eq, fun symbol score hselected => ?_⟩
  rw [hparts.target.scores_eq, Table.get?_filter, Option.filter_eq_some_iff] at hselected
  obtain ⟨hscore, hweighted⟩ := hselected
  obtain ⟨weight, hweight⟩ := Option.isSome_iff_exists.1 hweighted
  obtain ⟨price, hprice, _⟩ :=
    hparts.target.priced (symbol, weight) (Table.get?_eq_some_iff.1 hweight)
  obtain ⟨hsymbol, f, quotes, hf, hquotes, hlatest⟩ :=
    exists_fetched_of_score hparts.scores hscore
  exact ⟨weight, price, hweight, hprice, hparts.target.get?_positions hweight hprice,
    scored_cases hk hq hstored hparts.prices hsymbol hf hquotes hprice hlatest⟩

/-- **A plan sizes at the price that it scores exactly if nothing stored says otherwise** of the
dates of its week after the one of the price that it sizes at.  So it always does where every date
with a price is a trading day, as in a store in which one symbol is enough. -/
theorem score_eq_price_iff {s : MemoryStore α} (hprices : r.loader.prices = s.priceStore)
    (hq : r.loader.Quotes live) {current : Portfolio α} {minTrade : α} {ledger : ExcessLedger α}
    {p : RebalancePlan α} (h : (r.plan priceToday symbols current minTrade ledger).1 = .ok p) :
    ∃ stored day, r.latestDay = .ok stored ∧ r.currentPrices symbols = .ok day ∧
      p.date = day.date ∧
      ∀ symbol score, p.target.scores.get? symbol = some score → ∃ weight price,
        p.target.weights.get? symbol = some weight ∧ day.prices.get? symbol = some price ∧
        p.target.portfolio.positions.get? symbol =
          (if Target.round3 (p.value * weight) / price == 0.0 then none
            else some (Target.round3 (p.value * weight) / price)) ∧
        (score = price ↔ ∀ x, (s.series symbol).Latest (AfterTraded stored live day symbol) x →
          x = price) ∧
        (s.minSymbols ≤ 1 → score = price) := by
  have hk : r.loader.prices.Keeps s.series s.TradesOn := hprices ▸ s.keeps_priceStore
  obtain ⟨stored, day, hstored, hday, hdate, hselected⟩ := selected_of_plan hk hq h
  refine ⟨stored, day, hstored, hday, hdate, fun symbol score hscore => ?_⟩
  obtain ⟨weight, price, hweight, hprice, hposition, hcases⟩ := hselected symbol score hscore
  refine ⟨weight, price, hweight, hprice, hposition, ?_, fun hmin => ?_⟩
  · rcases hcases with hlatest | ⟨hnone, heq⟩
    · exact ⟨fun heq x hx => (hx.unique hlatest).trans heq, fun hall => hall score hlatest⟩
    · exact iff_of_true heq fun x hx => absurd hx (hnone x)
  · rcases hcases with ⟨d, hafter, hx, _⟩ | ⟨_, heq⟩
    · have hlast := ((hk.latestDay _ (latestDay_eq_ok_iff.1 hstored) stored).1 rfl).2
      have hlt := Date.lt_of_le_of_lt stored_le_tradedDate hafter.1
      exact absurd hlt (Date.not_lt.2 (hlast d (s.tradesOn_of_price hmin hx)))
    · exact heq

def quotedLater (minSymbols : Nat) : MemoryStore Float :=
  (Scoring.shares minSymbols [("AAPL", 5, 100), ("GOOG", 5, 50), ("MSFT", 5, 200)]).insertQuote
    "MSFT" ⟨250, Scoring.dayOf 8, ⟨10, 0, 0⟩⟩

def planOf (s : MemoryStore Float) : Except (RunError Float) (RebalancePlan Float) :=
  ((ofStore s).plan priceToday ["AAPL", "GOOG", "MSFT"] (.ofCash 900) 0.0001 .empty).1

/-- Where one symbol is enough, the shares are traded at the prices that they are scored with. -/
theorem scored_as_traded : ∃ p day, planOf (quotedLater 1) = .ok p ∧
    (ofStore (quotedLater 1)).currentPrices ["AAPL", "GOOG", "MSFT"] = .ok day ∧
    p.target.scores.get? "MSFT" = some 250 ∧
    ∀ symbol score, p.target.scores.get? symbol = some score →
      day.prices.get? symbol = some score := by
  have hplan : (planOf (quotedLater 1)).toOption.any
      (fun p => decide (p.target.scores.get? "MSFT" = some 250)) = true := by
    decide +kernel
  obtain ⟨p, hp, hscore⟩ := Except.exists_of_toOption_any hplan
  have hquotes : (ofStore (quotedLater 1)).loader.Quotes (quotedLater 1).quotes.get? :=
    (quotedLater 1).quotes_quoteSource rfl
  obtain ⟨stored, day, _, hday, _, hselected⟩ :=
    score_eq_price_iff (s := quotedLater 1) rfl hquotes hp
  refine ⟨p, day, hp, hday, of_decide_eq_true hscore, fun symbol score hsymbol => ?_⟩
  obtain ⟨_, price, _, hprice, _, _, heq⟩ := hselected symbol score hsymbol
  rw [hprice, heq (by decide)]

/-- Three symbols are needed and one has a price on 6 January: the plan of 8 January trades it at
the price of 5 January, and scores it with that of 6 January. -/
theorem scored_apart_from_traded :
    ∃ p day, planOf ((quotedLater 3).insertPrice "AAPL" (Scoring.dayOf 6) 125) = .ok p ∧
      (ofStore ((quotedLater 3).insertPrice "AAPL" (Scoring.dayOf 6) 125)).currentPrices
        ["AAPL", "GOOG", "MSFT"] = .ok day ∧
      p.target.scores.get? "AAPL" = some 125 ∧ day.prices.get? "AAPL" = some 100 := by
  have hplan : (planOf ((quotedLater 3).insertPrice "AAPL" (Scoring.dayOf 6)
      125)).toOption.any (fun p => decide (p.target.scores.get? "AAPL" = some 125)) = true := by
    decide +kernel
  have hday : ((ofStore ((quotedLater 3).insertPrice "AAPL" (Scoring.dayOf 6)
      125)).currentPrices ["AAPL", "GOOG", "MSFT"]).toOption.any
      (fun day => decide (day.prices.get? "AAPL" = some 100)) = true := by
    decide +kernel
  obtain ⟨p, hp, hscore⟩ := Except.exists_of_toOption_any hplan
  obtain ⟨day, hd, hprice⟩ := Except.exists_of_toOption_any hday
  exact ⟨p, day, hp, hd, of_decide_eq_true hscore, of_decide_eq_true hprice⟩

end Rebalancer

end FactorPortfolio
