import FactorPortfolio.Proofs.Cache.Reads
import FactorPortfolio.Proofs.Rebalance.Plan
import FactorPortfolio.Proofs.Scoring.Batch
import Mathlib.Tactic.Common

/-!
# Stale quotes

Quotes on or before the latest trading day never are prices that a plan trades at.  They may be
prices that it scores with: those are merged unless one of the trading days fetched for the formula
is as late, and a formula that looks back need not ask for the latest trading day at all.
`plan_withoutStale` says when such quotes are inert, `stale_quote_scored` has a plan in which one
is not.
-/

namespace FactorPortfolio

variable {α : Type}

def QuoteSource.after (source : QuoteSource α) (day : Date) : QuoteSource α where
  latest symbols := (source.latest symbols).map fun quotes => quotes.filter fun _ q => day < q.date

namespace Loader

def after (l : Loader α) (day : Date) : Loader α :=
  { l with quotes := l.quotes.map fun source => source.after day }

variable {l : Loader α} {r : Requirements} {day : Date} {quotes : Table Symbol (Quote α)}

theorem quotesFor_after (l : Loader α) (day : Date) (symbols : List Symbol) :
    (l.after day).quotesFor symbols =
      (l.quotesFor symbols).map fun quotes => quotes.filter fun _ q => day < q.date := by
  rw [quotesFor, quotesFor, after]
  cases l.quotes <;> rfl

/-- Quotes up to a day that are merged but not read may as well be left out. -/
theorem readAlike_mergeQuotes {f : Fetched α} (h : ∀ symbol q, quotes.get? symbol = some q →
      q.date ≤ day → f.isFresh q = true → ¬ r.Reads symbol q.date) :
    Fetched.ReadAlike r (f.mergeQuotes (quotes.filter fun _ q => day < q.date))
      (f.mergeQuotes quotes) where
  seriesOf symbol date hread := by
    rw [Fetched.get?_seriesOf_mergeQuotes, Fetched.get?_seriesOf_mergeQuotes, Table.get?_filter]
    cases hq : quotes.get? symbol with
    | none => rfl
    | some q =>
      by_cases hday : day < q.date
      · simp [Option.filter_some, hday]
      · have hnot : ¬ (f.isFresh q = true ∧ q.date = date) := by
          rintro ⟨hfresh, rfl⟩
          exact h symbol q hq (Date.not_lt.1 hday) hfresh hread
        simp [Option.filter_some, hday, hnot]
  series symbol hmeasures hback := by
    rw [Fetched.contains_mergeQuotes, Fetched.contains_mergeQuotes]
    refine or_congr_left (exists_congr fun q => and_congr_left fun hfresh => ?_)
    rw [Table.get?_filter, Option.filter_eq_some_iff, decide_eq_true_iff]
    refine and_iff_left_of_imp fun hq => ?_
    by_contra hday
    exact h symbol q hq (Date.not_lt.1 hday) hfresh (.inr ⟨hmeasures, .inl hback⟩)

theorem load_after [Scalar α] (h : ∀ f quotes, l.Stored r f →
      l.quotesFor r.symbolWindows.keys = .ok quotes → ∀ symbol q, quotes.get? symbol = some q →
        q.date ≤ day → f.isFresh q = true → ¬ r.Reads symbol q.date) :
    ((l.after day).load r).map Cache.source = (l.load r).map Cache.source := by
  rw [load_eq, load_eq, fetchFor, fetchFor]
  cases hoverall : overallWindow r.symbolWindows.values with
  | none => exact fill_congr rfl (.refl r _)
  | some overall =>
    have hprices : (l.after day).prices = l.prices := rfl
    simp only [fetch_eq, quotesFor_after, hprices]
    cases hpoints : l.prices.points (rangesOf r.symbolWindows) with
    | error e => rfl
    | ok points =>
      cases hdays : l.prices.tradingDays (overall.1.back gapDays) overall.2 with
      | error e => rfl
      | ok days =>
        cases hquotes : l.quotesFor r.symbolWindows.keys with
        | error e => rfl
        | ok quotes =>
          have hstored : l.Stored r (Fetched.ofPoints points days) :=
            ⟨overall, points, days, hoverall, hpoints, hdays, rfl⟩
          exact fill_congr rfl (readAlike_mergeQuotes (h _ quotes hstored hquotes))

end Loader

namespace Scoring

variable [Scalar α]

theorem score_congr {l l' : Loader α} {formula : Formula α} {days : List Date}
    {symbols : List Symbol} {cancelled : Bool}
    (h : (l.load (formula.requirements (jobs days symbols))).map Cache.source =
      (l'.load (formula.requirements (jobs days symbols))).map Cache.source) :
    score l formula days symbols cancelled = score l' formula days symbols cancelled := by
  by_cases hjobs : jobs days symbols = []
  · rw [score_of_jobs_eq_nil hjobs, score_of_jobs_eq_nil hjobs]
  have hrun : ∀ x : Except (RunError α) (Cache α),
      (x >>= fun cache => runJobs cache.source formula (jobs days symbols) cancelled) =
        x.map Cache.source >>= fun source => runJobs source formula (jobs days symbols) cancelled
    | .ok _ => rfl
    | .error _ => rfl
  rw [score_of_jobs_ne_nil hjobs, score_of_jobs_ne_nil hjobs, hrun, hrun, h]

end Scoring

namespace Rebalancer

open Scoring (priceToday)

/-- The rebalancer without the quotes that are dated on or before the latest trading day. -/
def withoutStale (r : Rebalancer α) : Rebalancer α :=
  match r.loader.prices.latestDay with
  | .ok (some day) => { r with loader := r.loader.after day }
  | _ => r

variable {r : Rebalancer α} {stored : Date} {symbols : List Symbol}

theorem withoutStale_eq (h : r.latestDay = .ok stored) :
    r.withoutStale = { r with loader := r.loader.after stored } := by
  rw [withoutStale, latestDay_eq_ok_iff.1 h]

theorem withoutStale_eq_self {e : RunError α} (h : r.latestDay = .error e) :
    r.withoutStale = r := by
  rw [withoutStale]
  split
  · rename_i day hday
    rw [latestDay_eq_ok_iff.2 hday] at h
    cases h
  · rfl

theorem currentPrices_withoutStale (h : r.latestDay = .ok stored) :
    r.withoutStale.currentPrices symbols = r.currentPrices symbols := by
  have hday : r.withoutStale.latestDay = .ok stored := by rw [withoutStale_eq h]; exact h
  have hprices : r.withoutStale.loader.prices = r.loader.prices := by rw [withoutStale_eq h]; rfl
  have hquotes : r.withoutStale.loader.quotesFor symbols =
      (r.loader.quotesFor symbols).map fun quotes => quotes.filter fun _ q => stored < q.date := by
    rw [withoutStale_eq h]
    exact Loader.quotesFor_after r.loader stored symbols
  rw [currentPrices_eq, currentPrices_eq, h, hday, hprices, hquotes]
  show (liftStore (r.loader.prices.pricesOn symbols stored) >>= _ : Except (RunError α) _) =
    liftStore (r.loader.prices.pricesOn symbols stored) >>= _
  refine bind_congr fun prices => ?_
  cases r.loader.quotesFor symbols with
  | error e => rfl
  | ok quotes => exact congrArg Except.ok (quoted_filter stored prices quotes)

variable [Scalar α] {formula : Formula α}

/-- No quote up to the stored day counts for the scores of a plan: the requests span a trading day
that is not before it, or its date is not read. -/
def OverlooksStale (r : Rebalancer α) (trades : Date → Prop) (formula : Formula α)
    (symbols : List Symbol) : Prop :=
  ∀ stored day quotes, r.latestDay = .ok stored → r.currentPrices symbols = .ok day →
    r.loader.quotesFor (requirements formula symbols day).symbolWindows.keys = .ok quotes →
    ∀ symbol q, quotes.get? symbol = some q → q.date ≤ stored →
      (∃ t, (requirements formula symbols day).Spans t ∧ trades t ∧ q.date ≤ t) ∨
        ¬ (requirements formula symbols day).Reads symbol q.date

variable {prices : Symbol → Series α} {trades : Date → Prop}

theorem scoreDay_withoutStale (hk : r.loader.prices.Keeps prices trades)
    (h : r.OverlooksStale trades formula symbols) (hstored : r.latestDay = .ok stored)
    {day : DayPrices α} (hday : r.currentPrices symbols = .ok day) :
    scoreDay r.withoutStale.loader formula symbols day.date =
      scoreDay r.loader formula symbols day.date := by
  rw [withoutStale_eq hstored, scoreDay, scoreDay]
  refine congrArg (· >>= _) (Scoring.score_congr (Loader.load_after ?_))
  intro f quotes hf hquotes symbol q hq hstale hfresh
  rcases h stored day quotes hstored hday hquotes symbol q hq hstale with
    ⟨t, hspans, ht, hle⟩ | hnot
  · have hlt := (hf.isFresh_iff hk).1 hfresh t hspans ht
    exact absurd hle (Date.not_le.2 hlt)
  · exact hnot

theorem propose_withoutStale (hk : r.loader.prices.Keeps prices trades)
    (h : r.OverlooksStale trades formula symbols) (current : Portfolio α) :
    r.withoutStale.propose formula symbols current = r.propose formula symbols current := by
  cases hstored : r.latestDay with
  | error e => rw [withoutStale_eq_self hstored]
  | ok stored =>
    rw [propose, propose, currentPrices_withoutStale hstored]
    cases hday : r.currentPrices symbols with
    | error e => rfl
    | ok day =>
      have hscores := scoreDay_withoutStale hk h hstored hday
      have hnum : r.withoutStale.numTickers = r.numTickers := by rw [withoutStale_eq hstored]
      have hweighting : r.withoutStale.weighting = r.weighting := by rw [withoutStale_eq hstored]
      simp only [hnum, hweighting]
      show (scoreDay r.withoutStale.loader formula symbols day.date >>= _) =
        scoreDay r.loader formula symbols day.date >>= _
      rw [hscores]

/-- Requests that reach to the stored day span it, or else read nothing up to it. -/
theorem overlooksStale_of_current (hk : r.loader.prices.Keeps prices trades)
    (h : ∀ stored day, r.latestDay = .ok stored → r.currentPrices symbols = .ok day →
      (∃ symbol low high, (requirements formula symbols day).Wants symbol low high ∧
        stored ≤ high) ∧
      ∀ symbol, (requirements formula symbols day).Measures symbol →
        ¬ (requirements formula symbols day).RunsBackwards symbol) :
    r.OverlooksStale trades formula symbols := by
  intro stored day quotes hstored hday _ symbol q _ hstale
  obtain ⟨⟨s, low, high, hwants, hhigh⟩, hforward⟩ := h stored day hstored hday
  have htrades : trades stored :=
    ((hk.latestDay _ (latestDay_eq_ok_iff.1 hstored) stored).1 rfl).1
  by_cases hlow : ∃ symbol low high,
      (requirements formula symbols day).Wants symbol low high ∧ low.back gapDays ≤ stored
  · exact .inl ⟨stored, ⟨hlow, s, low, high, hwants, hhigh⟩, htrades, hstale⟩
  · refine .inr ?_
    rintro (⟨d, hlisted, hback, _⟩ | ⟨hmeasures, hwindow⟩)
    · exact hlow ⟨symbol, d, d, .inl ⟨hlisted, rfl⟩, Date.le_trans hback hstale⟩
    · obtain ⟨⟨low', high', hwants', hle⟩, _⟩ := hwindow.resolve_left (hforward symbol hmeasures)
      exact hlow ⟨symbol, low', high', hwants',
        Date.le_trans (Date.back_le low' (by decide)) (Date.le_trans hle hstale)⟩

/-- **Stale quotes are inert where they are overlooked.**  So they are if something is asked for
that ends on the latest trading day or later and no volatility is asked for backwards. -/
theorem plan_withoutStale (hk : r.loader.prices.Keeps prices trades) (current : Portfolio α)
    (minTrade : α) (ledger : ExcessLedger α) :
    (r.OverlooksStale trades formula symbols →
      r.withoutStale.plan formula symbols current minTrade ledger =
        r.plan formula symbols current minTrade ledger) ∧
    ((∀ stored day, r.latestDay = .ok stored → r.currentPrices symbols = .ok day →
      (∃ symbol low high, (requirements formula symbols day).Wants symbol low high ∧
        stored ≤ high) ∧
      ∀ symbol, (requirements formula symbols day).Measures symbol →
        ¬ (requirements formula symbols day).RunsBackwards symbol) →
      r.withoutStale.plan formula symbols current minTrade ledger =
        r.plan formula symbols current minTrade ledger) := by
  have hinert : r.OverlooksStale trades formula symbols →
      r.withoutStale.plan formula symbols current minTrade ledger =
        r.plan formula symbols current minTrade ledger := by
    intro h
    rw [plan, plan, propose_withoutStale hk h]
  exact ⟨hinert, fun h => hinert (overlooksStale_of_current hk h)⟩

def quotedBetween : MemoryStore Float :=
  (Scoring.shares 1 [("AAPL", 1, 100), ("GOOG", 1, 50), ("MSFT", 1, 200), ("AAPL", 5, 110),
    ("GOOG", 5, 60), ("MSFT", 5, 210)]).insertQuote "AAPL" ⟨999, Scoring.dayOf 3, ⟨10, 0, 0⟩⟩

/-- Prices of the day are asked for up to the latest trading day, so the quote is inert, and the
share is scored with its stored price. -/
theorem plan_withoutStale_priceToday :
    (ofStore quotedBetween).withoutStale.plan priceToday ["AAPL", "GOOG", "MSFT"] (.ofCash 900)
        0.0001 .empty =
      (ofStore quotedBetween).plan priceToday ["AAPL", "GOOG", "MSFT"] (.ofCash 900) 0.0001
        .empty ∧
    ∃ p, ((ofStore quotedBetween).plan priceToday ["AAPL", "GOOG", "MSFT"] (.ofCash 900) 0.0001
      .empty).1 = .ok p ∧ p.target.scores.get? "AAPL" = some 110 := by
  have hplan : ((ofStore quotedBetween).plan priceToday ["AAPL", "GOOG", "MSFT"] (.ofCash 900)
      0.0001 .empty).1.toOption.any
      (fun p => decide (p.target.scores.get? "AAPL" = some 110)) = true := by
    decide +kernel
  obtain ⟨p, hp, hscore⟩ := Except.exists_of_toOption_any hplan
  refine ⟨?_, p, hp, of_decide_eq_true hscore⟩
  have hk : (ofStore quotedBetween).loader.prices.Keeps quotedBetween.series
      quotedBetween.TradesOn := quotedBetween.keeps_priceStore
  refine (plan_withoutStale hk (.ofCash 900) 0.0001 .empty).2 fun stored day hstored hday => ?_
  obtain ⟨stored', prices, quotes, hstored', _, _, rfl⟩ := currentPrices_eq_ok_iff.1 hday
  obtain rfl := Except.ok.inj (hstored.symm.trans hstored')
  exact ⟨⟨"AAPL", _, _, wants_priceToday.2 ⟨List.mem_cons_self, rfl, rfl⟩,
    stored_le_quoted stored prices quotes⟩, fun _ h => absurd h not_measures_priceToday⟩

/-- The price of two days ago is asked for on 5 January.  The week before 3 January has a trading
day but none that is as late as the quote, so that the quote is scored. -/
theorem stale_quote_scored : ∃ formula : Formula Float,
    Formula.parse "price(nDaysAgo(2))" = .ok formula ∧
    (ofStore quotedBetween).withoutStale.plan formula ["AAPL", "GOOG", "MSFT"] (.ofCash 900)
        0.0001 .empty ≠
      (ofStore quotedBetween).plan formula ["AAPL", "GOOG", "MSFT"] (.ofCash 900) 0.0001
        .empty := by
  have hscores : (Formula.parse "price(nDaysAgo(2))").toOption.any (fun formula : Formula Float =>
      let score := fun r : Rebalancer Float => ((r.plan formula ["AAPL", "GOOG", "MSFT"]
        (.ofCash 900) 0.0001 .empty).1.toOption.bind fun p => p.target.scores.get? "AAPL")
      decide (score (ofStore quotedBetween).withoutStale = some 100 ∧
        score (ofStore quotedBetween) = some 999)) = true := by
    decide +kernel
  obtain ⟨formula, hparse, hscores⟩ := Except.exists_of_toOption_any hscores
  obtain ⟨hwithout, hwith⟩ := of_decide_eq_true hscores
  refine ⟨formula, hparse, fun heq => ?_⟩
  simp only [heq, hwith] at hwithout
  exact absurd hwithout (by decide +kernel)

end Rebalancer

end FactorPortfolio
