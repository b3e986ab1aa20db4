import FactorPortfolio.Cache.Load
import FactorPortfolio.Proofs.Cache.Series
import FactorPortfolio.Proofs.Except
import FactorPortfolio.Proofs.Formula.Asked
import FactorPortfolio.Store.Memory
import Mathlib.Tactic.Common

/-!
# What a store keeps

A `Market` is the data behind a price store and a fundamentals store: for every symbol its prices
and its records by date.  `Loader.Keeps` says that the answers of a loader are those of a market,
whatever kind of store gives them; a store in memory keeps what was put into it (`keeps_loader`).

`Market.source` answers questions straight from the market: a price with the latest one of the
week, a record with the latest one, a volatility as it is told.
-/

namespace FactorPortfolio

structure Market (α : Type) where
  prices : Symbol → Series α
  records : Symbol → Table Date (Fundamentals α)

namespace Market

variable {α : Type}

/-- The record in force on a date. -/
def record (m : Market α) (symbol : Symbol) (date : Date) : Option (Fundamentals α) :=
  ((m.records symbol).upTo date).last?.map Prod.snd

def upTo (m : Market α) (d : Date) : Market α :=
  ⟨fun symbol => (m.prices symbol).upTo d, fun symbol => (m.records symbol).upTo d⟩

/-- Answers from a market.  What there is no answer to was asked for in advance. -/
def source (m : Market α) (volatility : Symbol → Date → Date → Option α) : MetricSource α where
  price symbol date :=
    match (m.prices symbol).latestWithin date with
    | some x => .ok x
    | none => .error (.cacheMiss (.price symbol date true))
  stdev symbol start stop :=
    match volatility symbol start stop with
    | some x => .ok x
    | none => .error (.cacheMiss (.stdev symbol start stop true))
  fundamentals symbol date := .ok (m.record symbol date)

def returns [Scalar α] (m : Market α) (symbol : Symbol) (w : DateWindow) : List (Date × α) :=
  returnsOf (Table.between (m.prices symbol) w.1 w.2).entries

/-- The volatility that a batch with these windows of its symbols measures. -/
def volatility [Scalar α] (m : Market α) (windows : Table Symbol DateWindow) (symbol : Symbol)
    (start stop : Date) : Option α :=
  (windows.get? symbol).bind fun w => annualizedStdev (m.returns symbol w) start stop

theorem record_eq_some_iff {m : Market α} {symbol : Symbol} {date : Date} {r : Fundamentals α} :
    m.record symbol date = some r ↔ Series.Latest (m.records symbol) (· ≤ date) r :=
  Series.last?_eq_some_iff _ (Series.get?_upTo _ date)

theorem record_upTo (m : Market α) (symbol : Symbol) {d date : Date} (h : date ≤ d) :
    (m.upTo d).record symbol date = m.record symbol date := by
  have hupTo : ((m.records symbol).upTo d).upTo date = (m.records symbol).upTo date := by
    apply Table.ext_get?
    intro e
    rw [Series.get?_upTo, Series.get?_upTo, Series.get?_upTo]
    split
    · rename_i he
      rw [if_pos (Date.le_trans he h)]
    · rfl
  rw [record, upTo, hupTo, record]

/-- **What a market has no answer to** is a price or a volatility, and the fault names it as one
that was asked for in advance. -/
theorem answer_eq_error_iff {m : Market α} {volatility : Symbol → Date → Date → Option α}
    {q : Question} {e : EvalError α} : (m.source volatility).answer q = .error e ↔
      (∃ symbol date, q = .price symbol date ∧ (m.prices symbol).latestWithin date = none ∧
        e = .cacheMiss (.price symbol date true)) ∨
      ∃ symbol start stop, q = .stdev symbol start stop ∧ volatility symbol start stop = none ∧
        e = .cacheMiss (.stdev symbol start stop true) := by
  cases q with
  | price symbol date =>
    simp only [MetricSource.answer, source]
    cases hx : (m.prices symbol).latestWithin date <;> simp [hx, eq_comm]
  | stdev symbol start stop =>
    simp only [MetricSource.answer, source]
    cases hx : volatility symbol start stop <;> simp [hx, eq_comm]
  | fundamentals symbol date => simp [MetricSource.answer, source]

theorem isInternalFault_of_answer {m : Market α}
    {volatility : Symbol → Date → Date → Option α} {q : Question} {e : EvalError α}
    (h : (m.source volatility).answer q = .error e) : e.isInternalFault = false := by
  rcases answer_eq_error_iff.1 h with ⟨_, _, _, _, rfl⟩ | ⟨_, _, _, _, _, rfl⟩
  · rfl
  · rfl

theorem agree_of_volatility_eq (m : Market α)
    {volatility volatility' : Symbol → Date → Date → Option α} {q : Question}
    (h : ∀ symbol start stop, q = .stdev symbol start stop →
      volatility symbol start stop = volatility' symbol start stop) :
    (m.source volatility).Agree (m.source volatility') q := by
  cases q with
  | price symbol date => rfl
  | stdev symbol start stop =>
    simp only [MetricSource.Agree, MetricSource.answer, source, h symbol start stop rfl]
  | fundamentals symbol date => rfl

/-- Markets that are alike up to a day answer alike up to that day, volatilities apart. -/
theorem agree_source {m m' : Market α} {d : Date} (h : m.upTo d = m'.upTo d)
    {volatility volatility' : Symbol → Date → Date → Option α} {q : Question} (hq : q.UpTo d)
    (hvolatility : ∀ symbol start stop, q = .stdev symbol start stop →
      volatility symbol start stop = volatility' symbol start stop) :
    (m.source volatility).Agree (m'.source volatility') q := by
  cases q with
  | price symbol date =>
    have hprices : (m.prices symbol).upTo d = (m'.prices symbol).upTo d :=
      congrFun (congrArg Market.prices h) symbol
    have hlatest : (m.prices symbol).latestWithin date = (m'.prices symbol).latestWithin date := by
      rw [← Series.latestWithin_upTo (m.prices symbol) hq, hprices,
        Series.latestWithin_upTo (m'.prices symbol) hq]
    simp only [MetricSource.Agree, MetricSource.answer, source, hlatest]
  | stdev symbol start stop =>
    simp only [MetricSource.Agree, MetricSource.answer, source, hvolatility symbol start stop rfl]
  | fundamentals symbol date =>
    have hrecord : m.record symbol date = m'.record symbol date := by
      rw [← m.record_upTo symbol hq, h, m'.record_upTo symbol hq]
    simp only [MetricSource.Agree, MetricSource.answer, source, hrecord]

end Market

/-- The points that a store gives out are those of some series. -/
def PriceStore.GivesOut {α : Type} (store : PriceStore α) (prices : Symbol → Series α) : Prop :=
  ∀ ranges points, store.points ranges = .ok points → ∀ p, p ∈ points ↔
    ∃ r ∈ ranges, p.symbol = r.symbol ∧ r.start ≤ p.date ∧ p.date ≤ r.stop ∧
      (prices p.symbol).get? p.date = some p.price

/-- A loader without quotes gives out what a market holds. -/
structure Loader.Keeps {α : Type} (l : Loader α) (m : Market α) : Prop where
  quotes : l.quotes = none
  points : ∀ ranges points, l.prices.points ranges = .ok points → ∀ p, p ∈ points ↔
    ∃ r ∈ ranges, p.symbol = r.symbol ∧ r.start ≤ p.date ∧ p.date ≤ r.stop ∧
      (m.prices p.symbol).get? p.date = some p.price
  record : ∀ r x, l.record r = .ok x → x = m.record r.symbol r.date

namespace MemoryStore

variable {α : Type} (s : MemoryStore α)

def market : Market α := ⟨s.series, s.records⟩

def loader : Loader α := ⟨s.priceStore, some s.fundamentalsStore, none⟩

theorem mem_pointsIn {range : SymbolRange} {p : PricePoint α} : p ∈ s.pointsIn range ↔
    p.symbol = range.symbol ∧ range.start ≤ p.date ∧ p.date ≤ range.stop ∧
      (s.series p.symbol).get? p.date = some p.price := by
  obtain ⟨symbol, date, price⟩ := p
  rw [pointsIn, List.mem_map]
  constructor
  · rintro ⟨e, he, heq⟩
    cases heq
    obtain ⟨hentry, hlow, hhigh⟩ := (Series.mem_between _).1 he
    exact ⟨rfl, hlow, hhigh, Table.get?_eq_some_iff.2 hentry⟩
  · rintro ⟨rfl, hlow, hhigh, hprice⟩
    exact ⟨(date, price), (Series.mem_between _).2
      ⟨Table.get?_eq_some_iff.1 hprice, hlow, hhigh⟩, rfl⟩

theorem guarded_eq_ok_iff {β : Type} {answer b : β} :
    s.guarded answer = .ok b ↔ s.failure = none ∧ answer = b := by
  rw [guarded]
  split <;> simp_all

theorem guarded_of_failure {s : MemoryStore α} (h : s.failure = none) {β : Type} (answer : β) :
    s.guarded answer = .ok answer := s.guarded_eq_ok_iff.2 ⟨h, rfl⟩

/-- **A store in memory keeps what was put into it.** -/
theorem keeps_loader : s.loader.Keeps s.market where
  quotes := rfl
  points ranges points h p := by
    obtain ⟨_, rfl⟩ := s.guarded_eq_ok_iff.1 h
    rw [List.mem_flatMap]
    exact exists_congr fun range => and_congr_right fun _ => s.mem_pointsIn
  record r x h := by
    obtain ⟨_, rfl⟩ := s.guarded_eq_ok_iff.1 (Except.mapError_eq_ok_iff.1 h)
    rfl

/-- Prices from one store and records from another, or none, are those of a market as well. -/
theorem keeps_stores (fundamentals : Option (MemoryStore α)) :
    (⟨s.priceStore, fundamentals.map fundamentalsStore, none⟩ : Loader α).Keeps
      ⟨s.series, fun symbol => fundamentals.elim ∅ fun f => f.records symbol⟩ where
  quotes := rfl
  points := s.keeps_loader.points
  record r x h := by
    cases fundamentals with
    | none => exact (Except.ok.inj h).symm
    | some f => exact f.keeps_loader.record r x h

theorem series_insertPrice_self (symbol : Symbol) (date : Date) (x : α) :
    (s.insertPrice symbol date x).series symbol = (s.series symbol).insert date x := by
  rw [insertPrice, series, Table.get?_insert_self, Option.getD_some]

theorem series_insertPrice_of_ne {symbol symbol' : Symbol} (h : symbol' ≠ symbol) (date : Date)
    (x : α) : (s.insertPrice symbol date x).series symbol' = s.series symbol' := by
  rw [insertPrice, series, Table.get?_insert_of_ne _ h, series]

theorem records_insertFundamentals_self (symbol : Symbol) (date : Date) (r : Fundamentals α) :
    (s.insertFundamentals symbol date r).records symbol = (s.records symbol).insert date r := by
  rw [insertFundamentals, records, Table.get?_insert_self, Option.getD_some]

theorem records_insertFundamentals_of_ne {symbol symbol' : Symbol} (h : symbol' ≠ symbol)
    (date : Date) (r : Fundamentals α) :
    (s.insertFundamentals symbol date r).records symbol' = s.records symbol' := by
  rw [insertFundamentals, records, Table.get?_insert_of_ne _ h, records]

theorem upTo_market_insertPrice (symbol : Symbol) {date d : Date} (h : d < date) (x : α) :
    (s.insertPrice symbol date x).market.upTo d = s.market.upTo d := by
  have hprices : ∀ symbol', ((s.insertPrice symbol date x).series symbol').upTo d =
      (s.series symbol').upTo d := by
    intro symbol'
    by_cases hs : symbol' = symbol
    · subst hs
      apply Table.ext_get?
      intro e
      rw [Series.get?_upTo, Series.get?_upTo]
      split
      · rename_i he
        have hne : e ≠ date := by
          rintro rfl
          exact Date.not_lt.2 he h
        rw [series_insertPrice_self, Table.get?_insert_of_ne _ hne]
      · rfl
    · rw [series_insertPrice_of_ne s hs]
  simp only [Market.upTo, market, hprices]
  rfl

end MemoryStore

end FactorPortfolio
