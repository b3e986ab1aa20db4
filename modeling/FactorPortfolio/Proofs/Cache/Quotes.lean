import FactorPortfolio.Proofs.Cache.Loaded
import FactorPortfolio.Proofs.Store.Calendar
import Mathlib.Tactic.Common

/-!
# Quotes among the fetched prices

A quote that is later than every fetched trading day counts as a price of its own date, and takes
the place of one that is stored there (`get?_seriesOf_mergeQuotes`).  The others change nothing.

What comes from the store before quotes are merged is `Loader.Stored`: the prices of the dates
that the requirements reach (`Stored.get?_seriesOf`), and the trading days that they span, which
decide about the quotes (`Stored.isFresh_iff`).
-/

namespace FactorPortfolio

namespace Fetched

variable {α : Type} {symbol : Symbol}

/-! ### Symbols with a series -/

theorem contains_add (f : Fetched α) (symbol' : Symbol) (date : Date) (x : α) :
    (f.add symbol' date x).series.contains symbol = true ↔
      symbol = symbol' ∨ f.series.contains symbol = true := by
  by_cases hs : symbol = symbol'
  · subst hs
    simp [Table.contains, add]
  · simp [Table.contains, add, Table.get?_insert_of_ne _ hs, hs]

theorem contains_foldl_add {β : Type} (symbolOf : β → Symbol) (dateOf : β → Date)
    (priceOf : β → α) (l : List β) (f : Fetched α) :
    (l.foldl (fun f b => f.add (symbolOf b) (dateOf b) (priceOf b)) f).series.contains symbol
      = true ↔ (∃ b ∈ l, symbolOf b = symbol) ∨ f.series.contains symbol = true := by
  induction l generalizing f with
  | nil => simp
  | cons b l ih =>
    rw [List.foldl_cons, ih, contains_add, List.exists_mem_cons_iff, eq_comm (a := symbol),
      or_left_comm, or_assoc]

theorem contains_ofPoints (points : List (PricePoint α)) (days : List Date) :
    (ofPoints points days).series.contains symbol = true ↔ ∃ p ∈ points, p.symbol = symbol := by
  rw [ofPoints, contains_foldl_add]
  exact or_iff_left Bool.false_ne_true

/-! ### Merged quotes -/

def isFresh (f : Fetched α) (q : Quote α) : Bool :=
  f.tradingDays.getLast?.all fun last => last < q.date

theorem tradingDays_ofPoints (points : List (PricePoint α)) (days : List Date) :
    (ofPoints points days).tradingDays = days := by
  have hfold : ∀ f : Fetched α, (points.foldl (fun f p => f.add p.symbol p.date p.price)
      f).tradingDays = f.tradingDays := by
    induction points with
    | nil => exact fun f => rfl
    | cons p points ih => exact fun f => ih _
  exact hfold _

theorem series_mergeQuotes (f : Fetched α) (quotes : Table Symbol (Quote α)) :
    (f.mergeQuotes quotes).series = ((quotes.filter fun _ q => f.isFresh q).entries.foldl
      (fun f e => f.add e.1 e.2.date e.2.price) f).series := rfl

theorem contains_mergeQuotes (f : Fetched α) (quotes : Table Symbol (Quote α)) :
    (f.mergeQuotes quotes).series.contains symbol = true ↔
      (∃ q, quotes.get? symbol = some q ∧ f.isFresh q = true) ∨
        f.series.contains symbol = true := by
  rw [series_mergeQuotes, contains_foldl_add]
  refine or_congr_left ?_
  constructor
  · rintro ⟨⟨_, q⟩, he, rfl⟩
    rw [← Table.get?_eq_some_iff, Table.get?_filter, Option.filter_eq_some_iff] at he
    exact ⟨q, he⟩
  · rintro ⟨q, hq, hfresh⟩
    refine ⟨(symbol, q), ?_, rfl⟩
    rw [← Table.get?_eq_some_iff, Table.get?_filter, hq, Option.filter_some_pos hfresh]

/-- **A quote later than the trading days is the price of its date**; the others change
nothing. -/
theorem get?_seriesOf_mergeQuotes (f : Fetched α) (quotes : Table Symbol (Quote α)) (date : Date) :
    Table.get? ((f.mergeQuotes quotes).seriesOf symbol) date =
      (((quotes.get? symbol).filter fun q => f.isFresh q && decide (q.date = date)).map
        Quote.price).or (Table.get? (f.seriesOf symbol) date) := by
  have hself : ∀ (f : Fetched α) (q : Quote α),
      Table.get? ((f.add symbol q.date q.price).seriesOf symbol) date =
        if q.date = date then some q.price else Table.get? (f.seriesOf symbol) date := by
    intro f q
    rw [get?_seriesOf_add f ⟨symbol, q.date, q.price⟩]
    by_cases hd : date = q.date
    · rw [if_pos ⟨rfl, hd⟩, if_pos hd.symm]
    · rw [if_neg fun h => hd h.2, if_neg (Ne.symm hd)]
  have hother : ∀ (f : Fetched α) (e : Symbol × Quote α), e.1 ≠ symbol →
      Table.get? ((f.add e.1 e.2.date e.2.price).seriesOf symbol) date =
        Table.get? (f.seriesOf symbol) date := by
    intro f e hne
    rw [get?_seriesOf_add f ⟨e.1, e.2.date, e.2.price⟩, if_neg fun h => hne h.1.symm]
  rw [seriesOf, series_mergeQuotes]
  refine (Table.view_foldl_entries (fun f : Fetched α => Table.get? (f.seriesOf symbol) date)
    (fun q x => if q.date = date then some q.price else x) hself hother
    (quotes.filter fun _ q => f.isFresh q) f).trans ?_
  rw [Table.get?_filter]
  cases quotes.get? symbol with
  | none => rfl
  | some q =>
    cases hfresh : f.isFresh q <;> by_cases hd : q.date = date <;>
      simp [Option.filter_some, hfresh, hd]

theorem mergeQuotes_empty (f : Fetched α) : f.mergeQuotes ∅ = f := by
  obtain ⟨series, days⟩ := f
  exact congrArg (Fetched.mk series) (List.append_nil days)

end Fetched

namespace Loader

variable {α : Type} {l : Loader α} {r : Requirements} {fetched : Fetched α} {symbol : Symbol}

def quotesFor (l : Loader α) (symbols : List Symbol) : Except StoreError (Table Symbol (Quote α)) :=
  match l.quotes with
  | none => .ok ∅
  | some source => source.latest symbols

theorem fetch_eq (l : Loader α) (windows : Table Symbol DateWindow) (overall : DateWindow) :
    l.fetch windows overall = (do
      let points ← liftStore (l.prices.points (rangesOf windows))
      let days ← liftStore (l.prices.tradingDays (overall.1.back gapDays) overall.2)
      let quotes ← liftStore (l.quotesFor windows.keys)
      return (Fetched.ofPoints points days).mergeQuotes quotes) := by
  refine bind_congr fun points => bind_congr fun days => ?_
  rw [quotesFor]
  cases l.quotes with
  | none => exact congrArg Except.ok (Fetched.mergeQuotes_empty _).symm
  | some source => rfl

/-- **What a fetch comes to**: the points and the trading days that the store gives out, and the
quotes merged. -/
theorem fetch_eq_ok_iff {windows : Table Symbol DateWindow} {overall : DateWindow} :
    l.fetch windows overall = .ok fetched ↔ ∃ points days quotes,
      l.prices.points (rangesOf windows) = .ok points ∧
      l.prices.tradingDays (overall.1.back gapDays) overall.2 = .ok days ∧
      l.quotesFor windows.keys = .ok quotes ∧
      (Fetched.ofPoints points days).mergeQuotes quotes = fetched := by
  simp only [fetch_eq, Except.bind_eq_ok_iff, liftStore, Except.mapError_eq_ok_iff,
    Except.pure_eq_ok_iff, exists_and_left]

/-- Prices and trading days as they come from the store for some requirements. -/
def Stored (l : Loader α) (r : Requirements) (stored : Fetched α) : Prop :=
  ∃ overall points days, overallWindow r.symbolWindows.values = some overall ∧
    l.prices.points (rangesOf r.symbolWindows) = .ok points ∧
    l.prices.tradingDays (overall.1.back gapDays) overall.2 = .ok days ∧
    Fetched.ofPoints points days = stored

theorem exists_overallWindow {low high : Date} (h : r.Wants symbol low high) :
    ∃ overall, overallWindow r.symbolWindows.values = some overall := by
  obtain ⟨w, hw⟩ := Requirements.exists_window_iff.2 ⟨low, high, h⟩
  have hmem := Requirements.mem_values_symbolWindows.2 ⟨symbol, hw⟩
  cases hvalues : r.symbolWindows.values with
  | nil =>
    rw [hvalues] at hmem
    cases hmem
  | cons v rest => exact ⟨_, rfl⟩

/-- **What is fetched is what is stored and the quotes.** -/
theorem fetchFor_eq_ok_iff {low high : Date} (h : r.Wants symbol low high) :
    l.fetchFor r = .ok fetched ↔ ∃ stored quotes, l.Stored r stored ∧
      l.quotesFor r.symbolWindows.keys = .ok quotes ∧ stored.mergeQuotes quotes = fetched := by
  obtain ⟨overall, hoverall⟩ := exists_overallWindow h
  rw [fetchFor, hoverall]
  show l.fetch r.symbolWindows overall = .ok fetched ↔ _
  rw [fetch_eq_ok_iff]
  constructor
  · rintro ⟨points, days, quotes, hpoints, hdays, hquotes, heq⟩
    exact ⟨_, quotes, ⟨overall, points, days, hoverall, hpoints, hdays, rfl⟩, hquotes, heq⟩
  · rintro ⟨_, quotes, ⟨overall', points, days, hoverall', hpoints, hdays, rfl⟩, hquotes, heq⟩
    obtain rfl := Option.some.inj (hoverall.symm.trans hoverall')
    exact ⟨points, days, quotes, hpoints, hdays, hquotes, heq⟩

namespace Stored

variable {prices : Symbol → Series α} {trades : Date → Prop} {stored : Fetched α}

/-- **A quote is merged if and only if it is later than the trading days the requirements
span.** -/
theorem isFresh_iff (h : l.Stored r stored) (hk : l.prices.Keeps prices trades) {q : Quote α} :
    stored.isFresh q = true ↔ ∀ d, r.Spans d → trades d → d < q.date := by
  obtain ⟨overall, points, days, hoverall, _, hdays, rfl⟩ := h
  obtain ⟨hsorted, hmem⟩ := hk.tradingDays _ _ _ hdays
  rw [Fetched.isFresh, Fetched.tradingDays_ofPoints, Date.all_getLast?_lt_iff hsorted]
  simp only [hmem, ← and_assoc, Requirements.spans_iff hoverall, and_imp]

/-- **The prices from the store are those of the dates that the requirements reach.** -/
theorem get?_seriesOf (h : l.Stored r stored) (hk : l.prices.GivesOut prices) {low high : Date}
    (hwants : r.Wants symbol low high) {date : Date} {x : α} :
    Table.get? (stored.seriesOf symbol) date = some x ↔
      r.Reaches symbol date ∧ (prices symbol).get? date = some x := by
  obtain ⟨overall, points, days, _, hpoints, _, rfl⟩ := h
  obtain ⟨w, hw⟩ := Requirements.exists_window_iff.2 ⟨low, high, hwants⟩
  rw [seriesOf_ofPoints hk hpoints days hw, Series.get?_between, Option.ite_none_right_eq_some,
    Requirements.reaches_iff hw]

theorem contains_series (h : l.Stored r stored) (hk : l.prices.GivesOut prices) {low high : Date}
    (hwants : r.Wants symbol low high) : stored.series.contains symbol = true ↔
      ∃ date, r.Reaches symbol date ∧ (prices symbol).contains date = true := by
  obtain ⟨overall, points, days, _, hpoints, _, rfl⟩ := h
  obtain ⟨w, hw⟩ := Requirements.exists_window_iff.2 ⟨low, high, hwants⟩
  rw [Fetched.contains_ofPoints]
  simp only [hk _ _ hpoints, ← Requirements.reaches_iff hw, Table.contains,
    Option.isSome_iff_exists]
  constructor
  · rintro ⟨p, ⟨range, hrange, hsymbol, hlow, hhigh, hprice⟩, rfl⟩
    obtain rfl := (mem_ranges_iff hw).1 ⟨hrange, hsymbol⟩
    exact ⟨p.date, ⟨hlow, hhigh⟩, p.price, hprice⟩
  · rintro ⟨date, ⟨hlow, hhigh⟩, x, hx⟩
    obtain ⟨hrange, hsymbol⟩ := (mem_ranges_iff hw).2 rfl
    exact ⟨⟨symbol, date, x⟩, ⟨_, hrange, hsymbol, hlow, hhigh, hx⟩, rfl⟩

end Stored

end Loader

end FactorPortfolio
