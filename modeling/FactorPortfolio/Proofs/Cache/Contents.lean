import FactorPortfolio.Proofs.Calendar.Search
import FactorPortfolio.Proofs.Scoring.Breakdown
import Mathlib.Data.List.Dedup
import Mathlib.Order.Bounds.Defs
import Mathlib.Tactic.Common

/-!
# The contents of a cache

`Contents` says what a cache from a store in memory and from live quotes holds, in terms of what
was put into them and of nothing that the load does: the trading days from a week before the first
date requested to the last one, with the dates of the quotes that are later; and at each requested
point the latest price of its week, where such a quote takes the place of what is stored.

`contents_of_load` has it of whatever is loaded, and that a load comes to an end.  On the way there:

* `Requirements.spans_iff_between`: the trading days fetched are those between these two dates.
* `MemoryStore.get?_quotesFor`: the quotes that come in are those of the symbols with requests.
* `Arrived.get?_seriesOf_iff`: the prices at hand are those that the store and the quotes give.
-/

namespace FactorPortfolio

variable {α : Type}

/-! ### The dates requested -/

namespace Requirements

variable {r : Requirements} {symbol : Symbol} {low high date first last : Date}

/-- A price of the date is requested, or a volatility from or to it. -/
def Names (r : Requirements) (date : Date) : Prop :=
  ∃ symbol low high, r.Wants symbol low high ∧ (date = low ∨ date = high)

theorem Wants.le (hwindows : ∀ w ∈ r.stdevs, w.start ≤ w.stop) (h : r.Wants symbol low high) :
    low ≤ high := by
  rcases h with ⟨_, rfl⟩ | h
  · exact Date.le_refl _
  · exact hwindows _ h

theorem exists_first_last (hwindows : ∀ w ∈ r.stdevs, w.start ≤ w.stop)
    (h : r.Wants symbol low high) :
    ∃ first last, IsLeast {d | r.Names d} first ∧ IsGreatest {d | r.Names d} last := by
  obtain ⟨overall, hoverall⟩ := Loader.exists_overallWindow h
  obtain ⟨⟨f, hf, hfirst⟩, ⟨e, he, hlast⟩, hall⟩ := overallWindow_spec hoverall
  obtain ⟨symbol₁, hf⟩ := mem_values_symbolWindows.1 hf
  obtain ⟨symbol₂, he⟩ := mem_values_symbolWindows.1 he
  obtain ⟨stop, hstart⟩ := (r.tight_symbolWindows symbol₁ f hf).1
  obtain ⟨start, hstop⟩ := (r.tight_symbolWindows symbol₂ e he).2
  have hbounds : ∀ {symbol low high}, r.Wants symbol low high →
      overall.1 ≤ low ∧ high ≤ overall.2 := by
    intro symbol low high h
    obtain ⟨w, hw, hlow, hhigh⟩ := covers_of_wants h
    obtain ⟨hle, hge⟩ := hall w (mem_values_symbolWindows.2 ⟨symbol, hw⟩)
    exact ⟨Date.le_trans hle hlow, Date.le_trans hhigh hge⟩
  refine ⟨overall.1, overall.2, ⟨⟨symbol₁, f.1, stop, hstart, .inl hfirst.symm⟩, ?_⟩,
    ⟨⟨symbol₂, start, e.2, hstop, .inr hlast.symm⟩, ?_⟩⟩
  · rintro d ⟨symbol, low, high, h, rfl | rfl⟩
    · exact (hbounds h).1
    · exact Date.le_trans (hbounds h).1 (h.le hwindows)
  · rintro d ⟨symbol, low, high, h, rfl | rfl⟩
    · exact Date.le_trans (h.le hwindows) (hbounds h).2
    · exact (hbounds h).2

/-- **The trading days fetched are those from a week before the first date to the last one.** -/
theorem spans_iff_between (hwindows : ∀ w ∈ r.stdevs, w.start ≤ w.stop)
    (hfirst : IsLeast {d | r.Names d} first) (hlast : IsGreatest {d | r.Names d} last) :
    r.Spans date ↔ first.back gapDays ≤ date ∧ date ≤ last := by
  constructor
  · rintro ⟨⟨symbol, low, high, h, hlow⟩, symbol', low', high', h', hhigh⟩
    have hfirst_le : first ≤ low := hfirst.2 ⟨symbol, low, high, h, .inl rfl⟩
    have hle_last : high' ≤ last := hlast.2 ⟨symbol', low', high', h', .inr rfl⟩
    exact ⟨Date.le_trans (Date.back_le_back hfirst_le (by decide)) hlow,
      Date.le_trans hhigh hle_last⟩
  · rintro ⟨hlow, hhigh⟩
    obtain ⟨symbol, low, high, h, hf⟩ := hfirst.1
    obtain ⟨symbol', low', high', h', he⟩ := hlast.1
    have hstart : low ≤ first := by
      rcases hf with rfl | rfl
      · exact Date.le_refl _
      · exact h.le hwindows
    have hstop : last ≤ high' := by
      rcases he with rfl | rfl
      · exact h'.le hwindows
      · exact Date.le_refl _
    exact ⟨⟨symbol, low, high, h, Date.le_trans (Date.back_le_back hstart (by decide)) hlow⟩,
      symbol', low', high', h', Date.le_trans hhigh hstop⟩

end Requirements

/-! ### What a cache is to hold -/

section

variable (s : MemoryStore α) (live : Symbol → Option (Quote α)) (r : Requirements)
  (first last : Date)

/-- The live quote of a symbol with requests, if it is later than the trading days of the store
from a week before the first date to the last one. -/
def Joins (symbol : Symbol) (q : Quote α) : Prop :=
  live symbol = some q ∧ (∃ low high, r.Wants symbol low high) ∧
    ∀ d, first.back gapDays ≤ d → d ≤ last → s.TradesOn d → d < q.date

/-- The price of a symbol on a date: that of a quote which joins, or else the stored one. -/
def PricedAt (symbol : Symbol) (date : Date) (x : α) : Prop :=
  (∃ q, Joins s live r first last symbol q ∧ q.date = date ∧ q.price = x) ∨
    (∀ q, Joins s live r first last symbol q → q.date ≠ date) ∧
      (s.series symbol).get? date = some x

/-- The price of the latest date of the week that ends on a date. -/
def FilledAt (symbol : Symbol) (date : Date) (x : α) : Prop :=
  ∃ d, date.back gapDays ≤ d ∧ d ≤ date ∧ PricedAt s live r first last symbol d x ∧
    ∀ d', d < d' → d' ≤ date → ∀ y, ¬ PricedAt s live r first last symbol d' y

/-- What a cache holds for some requirements, the first and last date of which are given. -/
structure Contents (cache : Cache α) : Prop where
  ascending : cache.tradingDays.Pairwise (· < ·)
  /-- The trading days of the store, and behind them the dates of the quotes that join. -/
  tradingDays : ∃ stored added, cache.tradingDays = stored ++ added ∧
    (∀ d, d ∈ stored ↔ first.back gapDays ≤ d ∧ d ≤ last ∧ s.TradesOn d) ∧
    ∀ d, d ∈ added ↔ ∃ symbol q, Joins s live r first last symbol q ∧ q.date = d
  isTradingDay : ∀ d, cache.isTradingDay d = true ↔ d ∈ cache.tradingDays
  price : ∀ symbol date x, cache.price symbol date = .ok x ↔
    r.Lists (.price symbol date) ∧ FilledAt s live r first last symbol date x
  miss : ∀ symbol date e, cache.price symbol date = .error e →
    e = .price symbol date (decide (⟨symbol, date⟩ ∈ r.prices))
  /-- As many prices as there are distinct points requested that have one. -/
  size : cache.size = r.prices.dedup.countP fun p => (cache.price p.symbol p.date).toBool

end

/-! ### Fetched prices and trading days -/

namespace Fetched

variable {f : Fetched α} {quotes : Table Symbol (Quote α)}

theorem tradingDays_mergeQuotes (f : Fetched α) (quotes : Table Symbol (Quote α)) :
    ∃ added : List Date, (f.mergeQuotes quotes).tradingDays = f.tradingDays ++ added ∧
      added.Pairwise (· < ·) ∧ ∀ d, d ∈ added ↔
        ∃ symbol q, quotes.get? symbol = some q ∧ f.isFresh q = true ∧ q.date = d := by
  refine ⟨_, rfl, List.pairwise_map.2 ((Table.ascending _).imp Date.compare_eq_lt.1),
    fun d => ?_⟩
  rw [Table.mem_keys_iff, KeySet.contains_ofList, List.mem_map]
  constructor
  · rintro ⟨q, hq, rfl⟩
    obtain ⟨⟨symbol, q⟩, he, rfl⟩ := List.mem_map.1 hq
    rw [← Table.get?_eq_some_iff, Table.get?_filter, Option.filter_eq_some_iff] at he
    exact ⟨symbol, q, he.1, he.2, rfl⟩
  · rintro ⟨symbol, q, hq, hfresh, rfl⟩
    have he : (quotes.filter fun _ q => f.isFresh q).get? symbol = some q := by
      rw [Table.get?_filter, hq, Option.filter_some_pos hfresh]
    exact ⟨q, List.mem_map.2 ⟨_, Table.get?_eq_some_iff.1 he, rfl⟩, rfl⟩

end Fetched

theorem Loader.Stored.tradingDays {l : Loader α} {r : Requirements} {prices : Symbol → Series α}
    {trades : Date → Prop} {stored : Fetched α} (h : l.Stored r stored)
    (hk : l.prices.Keeps prices trades) :
    stored.tradingDays.Pairwise (· < ·) ∧
      ∀ d, d ∈ stored.tradingDays ↔ r.Spans d ∧ trades d := by
  obtain ⟨overall, points, days, hoverall, _, hdays, rfl⟩ := h
  obtain ⟨hsorted, hmem⟩ := hk.tradingDays _ _ _ hdays
  rw [Fetched.tradingDays_ofPoints]
  refine ⟨hsorted, fun d => ?_⟩
  rw [hmem, ← and_assoc, Requirements.spans_iff hoverall]

namespace MemoryStore

variable {s : MemoryStore α} {fundamentals : Option (FundamentalsStore α)}
  {live : Option (MemoryStore α)} {r : Requirements} {answers : Table Symbol (Quote α)}
  {symbol : Symbol} {q : Quote α}

def liveQuote (live : Option (MemoryStore α)) (symbol : Symbol) : Option (Quote α) :=
  live.bind fun l => l.quotes.get? symbol

theorem get?_quotesFor {symbols : List Symbol}
    (h : (s.loaderWith fundamentals (live.map quoteSource)).quotesFor symbols = .ok answers) :
    answers.get? symbol = some q ↔ symbol ∈ symbols ∧ liveQuote live symbol = some q := by
  cases live with
  | none =>
    obtain rfl := Except.ok.inj h
    exact iff_of_false nofun nofun
  | some l =>
    obtain ⟨_, rfl⟩ := l.guarded_eq_ok_iff.1 h
    exact Table.get?_ofList_filterMap l.quotes.get? symbols symbol q

theorem exists_quotesFor (h : ∀ l ∈ live, l.failure = none) (symbols : List Symbol) :
    ∃ answers, (s.loaderWith fundamentals (live.map quoteSource)).quotesFor symbols =
      .ok answers := by
  cases live with
  | none => exact ⟨_, rfl⟩
  | some l => exact ⟨_, l.guarded_eq_ok_iff.2 ⟨h l rfl, rfl⟩⟩

theorem exists_record {fundamentals : Option (MemoryStore α)} {quotes : Option (QuoteSource α)}
    (h : ∀ f ∈ fundamentals, f.failure = none) (p : PointRequest) :
    ∃ x, (s.loaderWith (fundamentals.map fundamentalsStore) quotes).record p = .ok x := by
  cases fundamentals with
  | none => exact ⟨none, rfl⟩
  | some f => exact ⟨_, Except.mapError_eq_ok_iff.2 (f.guarded_eq_ok_iff.2 ⟨h f rfl, rfl⟩)⟩

end MemoryStore

namespace Requirements

theorem mem_keys_symbolWindows {r : Requirements} {symbol : Symbol} :
    symbol ∈ r.symbolWindows.keys ↔ ∃ low high, r.Wants symbol low high := by
  rw [Table.mem_keys_iff, Table.contains, Option.isSome_iff_exists, exists_window_iff]

end Requirements

section

variable {s : MemoryStore α} {fundamentals : Option (FundamentalsStore α)}
  {live : Option (MemoryStore α)} {r : Requirements} {answers : Table Symbol (Quote α)}
  {stored : Fetched α} {first last : Date} {symbol : Symbol}

/-- What a load has fetched for requirements with these first and last dates. -/
structure Arrived (s : MemoryStore α) (fundamentals : Option (FundamentalsStore α))
    (live : Option (MemoryStore α)) (r : Requirements) (first last : Date) (stored : Fetched α)
    (answers : Table Symbol (Quote α)) : Prop where
  spans : ∀ d, r.Spans d ↔ first.back gapDays ≤ d ∧ d ≤ last
  stored : (s.loaderWith fundamentals (live.map MemoryStore.quoteSource)).Stored r stored
  answers : (s.loaderWith fundamentals (live.map MemoryStore.quoteSource)).quotesFor
    r.symbolWindows.keys = .ok answers

namespace Arrived

theorem joins_iff (h : Arrived s fundamentals live r first last stored answers) {q : Quote α} :
    answers.get? symbol = some q ∧ stored.isFresh q = true ↔
      Joins s (MemoryStore.liveQuote live) r first last symbol q := by
  have hk : (s.loaderWith fundamentals (live.map MemoryStore.quoteSource)).prices.Keeps s.series
      s.TradesOn := s.keeps_priceStore
  rw [MemoryStore.get?_quotesFor h.answers, h.stored.isFresh_iff hk,
    Requirements.mem_keys_symbolWindows, Joins]
  simp only [h.spans, and_imp]
  tauto

/-- **The prices at hand** are those of the quotes that join, and else those in the store. -/
theorem get?_seriesOf_iff (h : Arrived s fundamentals live r first last stored answers)
    {low high date : Date} (hwants : r.Wants symbol low high) (hreach : r.Reaches symbol date)
    {x : α} : Table.get? ((stored.mergeQuotes answers).seriesOf symbol) date = some x ↔
      PricedAt s (MemoryStore.liveQuote live) r first last symbol date x := by
  have hstored : Table.get? (stored.seriesOf symbol) date = some x ↔
      (s.series symbol).get? date = some x :=
    (h.stored.get?_seriesOf s.keeps_priceStore.points hwants).trans (and_iff_right hreach)
  rw [Fetched.get?_seriesOf_mergeQuotes, Option.or_eq_some_iff, hstored, PricedAt]
  simp only [← h.joins_iff]
  refine or_congr ?_ (and_congr_left fun _ => ?_)
  · simp [Option.map_eq_some_iff, Option.filter_eq_some_iff, and_assoc]
  · simp [Option.map_eq_none_iff, Option.filter_eq_none_iff]

theorem price?_iff (h : Arrived s fundamentals live r first last stored answers) {date : Date}
    (hlisted : r.Lists (.price symbol date)) {x : α} :
    (stored.mergeQuotes answers).price? ⟨symbol, date⟩ = some x ↔
      FilledAt s (MemoryStore.liveQuote live) r first last symbol date x := by
  have hwants : r.Wants symbol date date := .inl ⟨hlisted, rfl⟩
  have hprice : ∀ d, date.back gapDays ≤ d → d ≤ date → ∀ x,
      Table.get? ((stored.mergeQuotes answers).seriesOf symbol) d = some x ↔
        PricedAt s (MemoryStore.liveQuote live) r first last symbol d x := fun d hlow hhigh x =>
    h.get?_seriesOf_iff hwants ⟨⟨date, date, hwants, hlow⟩, date, date, hwants, hhigh⟩
  rw [Fetched.price?_eq, Series.latestWithin_eq_some_iff, Series.Latest, FilledAt]
  refine exists_congr fun d => ?_
  rw [and_assoc]
  refine and_congr_right fun hlow => and_congr_right fun hhigh => ?_
  rw [hprice d hlow hhigh]
  refine and_congr_right fun _ => forall_congr' fun d' => forall_congr' fun hlt => ?_
  have hlow' : date.back gapDays ≤ d' := Date.le_trans hlow (Date.le_of_lt hlt)
  rw [and_imp, forall_prop_of_true hlow']
  refine forall_congr' fun hhigh' => ?_
  simp only [Option.eq_none_iff_forall_ne_some, ne_eq, hprice d' hlow' hhigh']

end Arrived

end

/-! ### Loaded caches -/

namespace Loader

variable [Scalar α] {l : Loader α} {r : Requirements} {fetched : Fetched α} {cache : Cache α}

theorem tradingDays_of_load (h : l.load r = .ok cache) (hfetched : l.fetchFor r = .ok fetched) :
    cache.tradingDays = fetched.tradingDays := by
  rw [load_eq, hfetched] at h
  change l.fill r fetched = .ok cache at h
  obtain ⟨stdevs, _, h⟩ := Except.bind_eq_ok_iff.1 h
  obtain ⟨records, _, h⟩ := Except.bind_eq_ok_iff.1 h
  obtain rfl := Except.pure_eq_ok_iff.1 h
  rfl

/-- A cache holds as many prices as there are distinct points requested that have one. -/
theorem Loaded.size_eq (h : l.Loaded r fetched cache) :
    cache.size = r.prices.dedup.countP fun p => (cache.price p.symbol p.date).toBool := by
  have hprice : ∀ p : PointRequest, (cache.price p.symbol p.date).toBool = true ↔
      cache.prices.contains p = true := by
    rintro ⟨symbol, date⟩
    change _ ↔ (cache.prices.get? ⟨symbol, date⟩).isSome = true
    rw [Cache.price]
    cases cache.prices.get? ⟨symbol, date⟩ <;> simp [Except.toBool]
  have hperm : (cache.prices.keys).Perm
      (r.prices.dedup.filter fun p => (cache.price p.symbol p.date).toBool) := by
    refine (List.perm_ext_iff_of_nodup (Table.nodup_keys _) (r.prices.nodup_dedup.filter _)).2
      fun p => Table.mem_keys_iff.trans ?_
    rw [List.mem_filter, List.mem_dedup, hprice]
    refine (and_iff_right_of_imp fun hp => ?_).symm
    obtain ⟨x, hx⟩ := Option.isSome_iff_exists.1 hp
    exact ((h.price p x).1 hx).1
  rw [List.countP_eq_length_filter, ← hperm.length_eq, Table.keys, List.length_map]
  rfl

/-- A load comes to an end where a fetch does, no window runs backwards and the records answer. -/
theorem exists_load (hfetched : l.fetchFor r = .ok fetched)
    (hwindows : ∀ symbol, r.Measures symbol → ¬ r.RunsBackwards symbol)
    (hrecords : ∀ p ∈ r.fundamentals, ∃ x, l.record p = .ok x) :
    ∃ cache, l.load r = .ok cache := by
  have hstdev : ∀ w ∈ r.stdevs, ∃ x, fetched.stdev? r.symbolWindows w = .ok x := by
    rintro ⟨symbol, start, stop⟩ hlisted
    refine (breaksDown_or_exists_stdev? fetched r.symbolWindows _).resolve_left fun hbreaks => ?_
    obtain ⟨w, hw, _⟩ := Requirements.covers_stdev (r := r) hlisted
    have hlt := ((breaksDown_stdev?_iff fetched ⟨symbol, start, stop⟩ hw).1 hbreaks).2
    exact hwindows symbol ⟨start, stop, hlisted⟩ ((Requirements.window_lt_iff hw).1 hlt)
  obtain ⟨stdevs, hstdevs⟩ := Except.exists_mapM_eq_ok (l := r.stdevs)
    (f := fun w => return (w, ← fetched.stdev? r.symbolWindows w)) fun w hw => by
      obtain ⟨x, hx⟩ := hstdev w hw
      exact ⟨(w, x), by rw [hx]; rfl⟩
  obtain ⟨records, hrecords⟩ := Except.exists_mapM_eq_ok (l := r.fundamentals)
    (f := fun p => return (p, ← l.record p)) fun p hp => by
      obtain ⟨x, hx⟩ := hrecords p hp
      exact ⟨(p, x), by rw [hx]; rfl⟩
  rw [load_eq, hfetched]
  change ∃ cache, l.fill r fetched = .ok cache
  rw [fill, hstdevs, hrecords]
  exact ⟨_, rfl⟩

end Loader

section

variable [Scalar α] {s : MemoryStore α} {fundamentals : Option (FundamentalsStore α)}
  {live : Option (MemoryStore α)} {r : Requirements} {cache : Cache α} {first last : Date}

theorem Arrived.contents {stored : Fetched α} {answers : Table Symbol (Quote α)}
    (h : Arrived s fundamentals live r first last stored answers)
    (hl : (s.loaderWith fundamentals (live.map MemoryStore.quoteSource)).Loaded r
      (stored.mergeQuotes answers) cache)
    (hdays : cache.tradingDays = (stored.mergeQuotes answers).tradingDays) :
    Contents s (MemoryStore.liveQuote live) r first last cache := by
  have hk : (s.loaderWith fundamentals (live.map MemoryStore.quoteSource)).prices.Keeps s.series
      s.TradesOn := s.keeps_priceStore
  obtain ⟨hsorted, hmem⟩ := h.stored.tradingDays hk
  obtain ⟨added, hadded, hsorted', hmem'⟩ := Fetched.tradingDays_mergeQuotes stored answers
  rw [hadded] at hdays
  simp only [← and_assoc, h.joins_iff] at hmem'
  have hascending : cache.tradingDays.Pairwise (· < ·) := by
    rw [hdays, List.pairwise_append]
    refine ⟨hsorted, hsorted', fun a ha b hb => ?_⟩
    obtain ⟨hspans, htrades⟩ := (hmem a).1 ha
    obtain ⟨symbol, q, hq, rfl⟩ := (hmem' b).1 hb
    obtain ⟨hlow, hhigh⟩ := (h.spans a).1 hspans
    exact hq.2.2 a hlow hhigh htrades
  constructor
  case ascending => exact hascending
  case tradingDays =>
    refine ⟨_, added, hdays, fun d => ?_, hmem'⟩
    rw [hmem, h.spans, and_assoc]
  case isTradingDay => exact fun d => Date.isIn_iff_mem hascending
  case price =>
    intro symbol date x
    rw [hl.price_eq_ok_iff]
    exact and_congr_right fun hlisted => h.price?_iff hlisted
  case miss =>
    intro symbol date e he
    rw [Cache.price] at he
    split at he
    · cases he
    · cases he
      have hrequested := hl.requestedPrice ⟨symbol, date⟩
      exact congrArg (CacheMiss.price symbol date)
        (Bool.eq_iff_iff.2 (hrequested.trans decide_eq_true_iff.symm))
  case size => exact hl.size_eq

end

/-- **What a cache holds.**  Where a price or a volatility is requested, and no window ends before
it starts, a load from a store in memory and live quotes comes to an end, and holds what the store
and the quotes say of the dates between the first and the last one requested. -/
theorem contents_of_load [Scalar α] (s : MemoryStore α) (fundamentals live : Option (MemoryStore α))
    (r : Requirements) (hwants : ∃ symbol low high, r.Wants symbol low high)
    (hwindows : ∀ w ∈ r.stdevs, w.start ≤ w.stop) :
    ((∀ store, store = s ∨ store ∈ fundamentals ∨ store ∈ live → store.failure = none) →
      ∃ cache, (s.loaderWith (fundamentals.map MemoryStore.fundamentalsStore)
        (live.map MemoryStore.quoteSource)).load r = .ok cache) ∧
    ∃ first last, IsLeast {d | r.Names d} first ∧ IsGreatest {d | r.Names d} last ∧
      ∀ cache, (s.loaderWith (fundamentals.map MemoryStore.fundamentalsStore)
        (live.map MemoryStore.quoteSource)).load r = .ok cache →
        Contents s (MemoryStore.liveQuote live) r first last cache := by
  obtain ⟨symbol, low, high, hwants⟩ := hwants
  obtain ⟨first, last, hfirst, hlast⟩ := Requirements.exists_first_last hwindows hwants
  refine ⟨fun hworks => ?_, first, last, hfirst, hlast, fun cache hload => ?_⟩
  · obtain ⟨stored, hstored⟩ := (MemoryStore.exists_stored_iff hwants).2 (hworks s (.inl rfl))
    obtain ⟨answers, hanswers⟩ := MemoryStore.exists_quotesFor
      (fun l hl => hworks l (.inr (.inr hl))) r.symbolWindows.keys
    refine Loader.exists_load ((Loader.fetchFor_eq_ok_iff hwants).2
      ⟨stored, answers, hstored, hanswers, rfl⟩) ?_ fun p _ => ?_
    · rintro symbol ⟨start, stop, hlisted⟩ ⟨_, hback⟩
      exact Date.not_lt.2 (hwindows _ hlisted) (hback _ _ _ _ (.inr hlisted) (.inr hlisted))
    · exact MemoryStore.exists_record (fun f hf => hworks f (.inr (.inl hf))) p
  · obtain ⟨fetched, hl⟩ := Loader.loaded_of_load hload
    obtain ⟨stored, answers, hstored, hanswers, rfl⟩ :=
      (Loader.fetchFor_eq_ok_iff hwants).1 hl.fetch_eq
    have harrived : Arrived s (fundamentals.map MemoryStore.fundamentalsStore) live r first last
        stored answers :=
      ⟨fun d => Requirements.spans_iff_between hwindows hfirst hlast, hstored, hanswers⟩
    exact harrived.contents hl (Loader.tradingDays_of_load hload hl.fetch_eq)

def pricedTwice : MemoryStore Float :=
  Scoring.shares 1 [("AAPL", 3, 100), ("AAPL", 10, 110)]

def quotedOnce : MemoryStore Float :=
  (MemoryStore.empty 1).insertQuote "AAPL" ⟨120, Scoring.dayOf 20, ⟨10, 0, 0⟩⟩

def twoDates : Requirements :=
  ⟨[⟨"AAPL", Scoring.dayOf 12⟩, ⟨"AAPL", Scoring.dayOf 21⟩], [], []⟩

/-- Of the days fetched the store trades on 10 January only, and the quote adds its day. -/
theorem contents_of_load_quoted : ∃ cache first last,
    (pricedTwice.loaderWith none (some quotedOnce.quoteSource)).load twoDates = .ok cache ∧
    Contents pricedTwice (MemoryStore.liveQuote (some quotedOnce)) twoDates first last cache ∧
    cache.tradingDays = [Scoring.dayOf 10, Scoring.dayOf 20] := by
  have hwants : twoDates.Wants "AAPL" (Scoring.dayOf 12) (Scoring.dayOf 12) :=
    .inl ⟨List.mem_cons_self, rfl⟩
  obtain ⟨hloads, first, last, _, _, hcontents⟩ :=
    contents_of_load pricedTwice none (some quotedOnce) twoDates ⟨_, _, _, hwants⟩
      (fun w hw => nomatch hw)
  obtain ⟨cache, hcache⟩ := hloads fun store hstore => by
    rcases hstore with rfl | hstore | hstore
    · rfl
    · cases hstore
    · cases hstore
      rfl
  have hdays : ((pricedTwice.loaderWith none (some quotedOnce.quoteSource)).load
      twoDates).toOption.any
        (fun cache => decide (cache.tradingDays = [Scoring.dayOf 10, Scoring.dayOf 20])) =
          true := by
    decide +kernel
  obtain ⟨cache', hcache', hdays⟩ := Except.exists_of_toOption_any hdays
  obtain rfl := Except.ok.inj (hcache.symm.trans hcache')
  exact ⟨cache, first, last, hcache, hcontents cache hcache, of_decide_eq_true hdays⟩

end FactorPortfolio
