import FactorPortfolio.Proofs.Cache.Market
import Mathlib.Tactic.Common

/-!
# The trading days of a store

`PriceStore.Keeps` says of a price store that its four kinds of answers are those of one set of
prices and one calendar of trading days.  A store in memory keeps what was put into it, and trades
on the dates on which enough symbols have a price (`keeps_priceStore`); where one symbol is enough,
on all dates with a price (`tradesOn_of_price`).
-/

namespace FactorPortfolio

variable {α : Type}

/-- The answers of a price store are taken from some series and some trading days. -/
structure PriceStore.Keeps (store : PriceStore α) (prices : Symbol → Series α)
    (trades : Date → Prop) : Prop where
  points : store.GivesOut prices
  tradingDays : ∀ start stop days, store.tradingDays start stop = .ok days →
    days.Pairwise (· < ·) ∧ ∀ d, d ∈ days ↔ start ≤ d ∧ d ≤ stop ∧ trades d
  pricesOn : ∀ symbols date prices', store.pricesOn symbols date = .ok prices' → ∀ symbol x,
    prices'.get? symbol = some x ↔ symbol ∈ symbols ∧ (prices symbol).get? date = some x
  latestDay : ∀ last, store.latestDay = .ok last → ∀ d,
    last = some d ↔ trades d ∧ ∀ d', trades d' → d' ≤ d

namespace MemoryStore

variable (s : MemoryStore α)

def TradesOn (date : Date) : Prop := s.dates.contains date = true ∧ s.isTradingDay date = true

theorem contains_series_iff {symbol : Symbol} {date : Date} :
    (s.series symbol).contains date = true ↔
      ∃ series, s.prices.get? symbol = some series ∧ Table.contains series date = true := by
  rw [series]
  cases s.prices.get? symbol with
  | none =>
    constructor
    · intro h
      cases h
    · rintro ⟨_, h, _⟩
      cases h
  | some series => simp

theorem contains_dates_iff {date : Date} : s.dates.contains date = true ↔
    ∃ symbol, (s.series symbol).contains date = true := by
  simp only [dates, KeySet.contains_ofList, List.mem_flatMap, Table.values, List.mem_map,
    contains_series_iff, Table.get?_eq_some_iff, Table.mem_keys_iff]
  constructor
  · rintro ⟨_, ⟨⟨symbol, series⟩, hentry, rfl⟩, hdate⟩
    exact ⟨symbol, series, hentry, hdate⟩
  · rintro ⟨symbol, series, hentry, hdate⟩
    exact ⟨series, ⟨_, hentry, rfl⟩, hdate⟩

theorem tradesOn_of_price (h : s.minSymbols ≤ 1) {symbol : Symbol} {date : Date} {x : α}
    (hx : (s.series symbol).get? date = some x) : s.TradesOn date := by
  have hprice : (s.series symbol).contains date = true := by
    rw [Table.contains, hx]
    rfl
  obtain ⟨series, hseries, hdate⟩ := s.contains_series_iff.1 hprice
  have hcount : 0 < s.symbolCount date := List.countP_pos_iff.2
    ⟨series, List.mem_map.2 ⟨_, Table.get?_eq_some_iff.1 hseries, rfl⟩, hdate⟩
  exact ⟨s.contains_dates_iff.2 ⟨symbol, hprice⟩, decide_eq_true (Nat.le_trans h hcount)⟩

theorem pairwise_tradingDays (start stop : Date) : (s.tradingDays start stop).Pairwise (· < ·) :=
  (List.pairwise_map.2 ((Table.ascending _).imp Date.compare_eq_lt.1)).filter _

theorem mem_tradingDays {start stop date : Date} :
    date ∈ s.tradingDays start stop ↔ start ≤ date ∧ date ≤ stop ∧ s.TradesOn date := by
  rw [tradingDays, List.mem_filter, Table.mem_keys_iff, Table.contains, Series.get?_between,
    TradesOn, Table.contains]
  split
  · tauto
  · simp only [Option.isSome_none, Bool.false_eq_true, false_and, false_iff]
    tauto

/-- **A store in memory keeps what was put into it**, also as far as its calendar goes. -/
theorem keeps_priceStore : s.priceStore.Keeps s.series s.TradesOn where
  points := s.keeps_loader.points
  tradingDays start stop days h := by
    obtain ⟨_, rfl⟩ := s.guarded_eq_ok_iff.1 h
    exact ⟨s.pairwise_tradingDays start stop, fun d => s.mem_tradingDays⟩
  pricesOn symbols date prices h symbol x := by
    obtain ⟨_, rfl⟩ := s.guarded_eq_ok_iff.1 h
    exact Table.get?_ofList_filterMap (fun symbol => (s.series symbol).get? date) symbols symbol x
  latestDay last h d := by
    obtain ⟨_, rfl⟩ := s.guarded_eq_ok_iff.1 h
    rw [Date.getLast?_eq_some_iff (s.pairwise_tradingDays _ _), s.mem_tradingDays]
    have hfirst : ∀ d : Date, Date.earliest ≤ d := fun d => d.inRange.1
    have hlast : ∀ d : Date, d ≤ Date.latest := fun d => d.inRange.2
    simp only [s.mem_tradingDays, hfirst, hlast, true_and]

end MemoryStore

end FactorPortfolio
