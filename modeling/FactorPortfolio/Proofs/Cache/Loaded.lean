import FactorPortfolio.Proofs.Cache.Market
import FactorPortfolio.Proofs.Cache.Windows
import Mathlib.Tactic.Common

/-!
# What a loaded cache answers

`Loader.Loaded` puts together what is known of a cache once it has been loaded: which keys its
tables hold, with what values, and which questions it counts as requested.

* `exists_internal_fault_iff`: a cache fails a question as unforeseen if and only if the
  requirements it was loaded for do not list it.
* `agree_market`: to a question that they list it answers as the market behind its loader, with
  volatilities measured in the windows of the batch.
-/

namespace FactorPortfolio

variable {α : Type}

namespace Loader

variable [Scalar α] {l : Loader α} {r : Requirements} {cache : Cache α}

/-- The prices that a load fetches; nothing is fetched when no price is needed. -/
def fetchFor (l : Loader α) (r : Requirements) : Except (RunError α) (Fetched α) :=
  match overallWindow r.symbolWindows.values with
  | none => .ok ⟨∅, []⟩
  | some overall => l.fetch r.symbolWindows overall

def fill (l : Loader α) (r : Requirements) (fetched : Fetched α) :
    Except (RunError α) (Cache α) := do
  let stdevs ← r.stdevs.mapM fun w => return (w, ← fetched.stdev? r.symbolWindows w)
  let records ← r.fundamentals.mapM fun p => return (p, ← l.record p)
  return {
    prices := tabulate fetched.price? r.prices
    stdevs := Table.ofList (stdevs.filterMap fun e => e.2.map fun v => (e.1, v))
    fundamentals := Table.ofList records
    tradingDays := fetched.tradingDays
    requestedPrices := KeySet.ofList r.prices
    requestedStdevs := KeySet.ofList r.stdevs }

theorem load_eq (l : Loader α) (r : Requirements) : l.load r = l.fetchFor r >>= l.fill r := by
  rw [load, fetchFor]
  cases overallWindow r.symbolWindows.values <;> rfl

structure Loaded (l : Loader α) (r : Requirements) (fetched : Fetched α) (cache : Cache α) :
    Prop where
  fetch_eq : l.fetchFor r = .ok fetched
  price : ∀ p x, cache.prices.get? p = some x ↔ p ∈ r.prices ∧ fetched.price? p = some x
  stdev : ∀ w x, cache.stdevs.get? w = some x ↔
    w ∈ r.stdevs ∧ fetched.stdev? r.symbolWindows w = .ok (some x)
  record : ∀ p x, cache.fundamentals.get? p = some x ↔ p ∈ r.fundamentals ∧ l.record p = .ok x
  exists_stdev : ∀ w ∈ r.stdevs, ∃ x, fetched.stdev? r.symbolWindows w = .ok x
  exists_record : ∀ p ∈ r.fundamentals, ∃ x, l.record p = .ok x
  requestedPrice : ∀ p, cache.requestedPrices.contains p = true ↔ p ∈ r.prices
  requestedStdev : ∀ w, cache.requestedStdevs.contains w = true ↔ w ∈ r.stdevs

theorem loaded_of_load (h : l.load r = .ok cache) : ∃ fetched, l.Loaded r fetched cache := by
  rw [load_eq] at h
  obtain ⟨fetched, hfetched, h⟩ := Except.bind_eq_ok_iff.1 h
  obtain ⟨stdevs, hstdevs, h⟩ := Except.bind_eq_ok_iff.1 h
  obtain ⟨records, hrecords, h⟩ := Except.bind_eq_ok_iff.1 h
  obtain rfl := Except.pure_eq_ok_iff.1 h
  have hstdev : ∀ w x, (w, x) ∈ stdevs.filterMap (fun e => e.2.map fun v => (e.1, v)) ↔
      w ∈ r.stdevs ∧ fetched.stdev? r.symbolWindows w = .ok (some x) := by
    intro w x
    rw [← Except.mem_of_mapM_pair_eq_ok (e := (w, some x)) hstdevs]
    simp
  have hrecord : ∀ p x, (p, x) ∈ records ↔ p ∈ r.fundamentals ∧ l.record p = .ok x :=
    fun p x => Except.mem_of_mapM_pair_eq_ok hrecords
  refine ⟨fetched, ?_⟩
  constructor
  case fetch_eq => exact hfetched
  case price => exact Table.get?_ofList_filterMap _ _
  case stdev =>
    refine Table.get?_ofList_iff hstdev ?_
    rintro w x x' ⟨_, hx⟩ ⟨_, hx'⟩
    exact Option.some.inj (Except.ok.inj (hx.symm.trans hx'))
  case record =>
    refine Table.get?_ofList_iff hrecord ?_
    rintro p x x' ⟨_, hx⟩ ⟨_, hx'⟩
    exact Except.ok.inj (hx.symm.trans hx')
  case exists_stdev => exact fun w => Except.exists_of_mapM_pair_eq_ok hstdevs
  case exists_record => exact fun p => Except.exists_of_mapM_pair_eq_ok hrecords
  case requestedPrice => exact KeySet.contains_ofList r.prices
  case requestedStdev => exact KeySet.contains_ofList r.stdevs

theorem Loaded.price_eq_ok_iff {fetched : Fetched α} (h : l.Loaded r fetched cache)
    {symbol : Symbol} {date : Date} {x : α} : cache.price symbol date = .ok x ↔
      r.Lists (.price symbol date) ∧ fetched.price? ⟨symbol, date⟩ = some x := by
  rw [Requirements.Lists, ← h.price, Cache.price]
  cases cache.prices.get? ⟨symbol, date⟩ <;> simp

/-- **A cache knows what it was loaded for.**  It fails a question as unforeseen if and only if
the question is not listed. -/
theorem exists_internal_fault_iff (h : l.load r = .ok cache) (q : Question) :
    (∃ e, cache.source.answer q = .error e ∧ e.isInternalFault = true) ↔ ¬ r.Lists q := by
  obtain ⟨fetched, hl⟩ := loaded_of_load h
  cases q with
  | price symbol date =>
    have hrequested := hl.requestedPrice ⟨symbol, date⟩
    have hprice := hl.price ⟨symbol, date⟩
    simp only [MetricSource.answer, Cache.source, Cache.price]
    cases hx : cache.prices.get? ⟨symbol, date⟩ with
    | some x =>
      have := ((hprice x).1 hx).1
      simp [Except.mapError, Requirements.Lists, this]
    | none =>
      simp [Except.mapError, Requirements.Lists, ← hrequested,
        EvalError.isInternalFault, CacheMiss.isInternalFault]
  | stdev symbol start stop =>
    have hrequested := hl.requestedStdev ⟨symbol, start, stop⟩
    have hstdev := hl.stdev ⟨symbol, start, stop⟩
    simp only [MetricSource.answer, Cache.source, Cache.stdev]
    cases hx : cache.stdevs.get? ⟨symbol, start, stop⟩ with
    | some x =>
      have := ((hstdev x).1 hx).1
      simp [Except.mapError, Requirements.Lists, this]
    | none =>
      simp [Except.mapError, Requirements.Lists, ← hrequested,
        EvalError.isInternalFault, CacheMiss.isInternalFault]
  | fundamentals symbol date =>
    have hrecord := hl.record ⟨symbol, date⟩
    simp only [MetricSource.answer, Cache.source, Cache.record]
    cases hx : cache.fundamentals.get? ⟨symbol, date⟩ with
    | some x =>
      have := ((hrecord x).1 hx).1
      simp [Except.mapError, Requirements.Lists, this]
    | none =>
      have hnone : ⟨symbol, date⟩ ∉ r.fundamentals := by
        intro hmem
        obtain ⟨x, hx'⟩ := hl.exists_record _ hmem
        rw [(hrecord x).2 ⟨hmem, hx'⟩] at hx
        cases hx
      simp [Except.mapError, Requirements.Lists, hnone,
        EvalError.isInternalFault, CacheMiss.isInternalFault]

end Loader

/-! ### What is fetched -/

namespace Fetched

def seriesOf (f : Fetched α) (symbol : Symbol) : Series α := (f.series.get? symbol).getD ∅

/-- Fetched prices before quotes are merged. -/
def ofPoints (points : List (PricePoint α)) (days : List Date) : Fetched α :=
  points.foldl (fun f p => f.add p.symbol p.date p.price) ⟨∅, days⟩

theorem get?_seriesOf_add (f : Fetched α) (p : PricePoint α) (symbol : Symbol) (date : Date) :
    Table.get? ((f.add p.symbol p.date p.price).seriesOf symbol) date =
      if symbol = p.symbol ∧ date = p.date then some p.price
      else Table.get? (f.seriesOf symbol) date := by
  by_cases hs : symbol = p.symbol
  · subst hs
    rw [seriesOf, add, Table.get?_insert_self, Option.getD_some]
    by_cases hd : date = p.date
    · subst hd
      rw [Table.get?_insert_self, if_pos ⟨rfl, rfl⟩]
    · rw [Table.get?_insert_of_ne _ hd, if_neg fun h => hd h.2, seriesOf]
  · rw [seriesOf, add, Table.get?_insert_of_ne _ hs, if_neg fun h => hs h.1, seriesOf]

theorem get?_seriesOf_foldl_add (prices : Symbol → Series α) {points : List (PricePoint α)}
    (h : ∀ p ∈ points, (prices p.symbol).get? p.date = some p.price) {f : Fetched α}
    (hf : ∀ symbol date x, Table.get? (f.seriesOf symbol) date = some x →
      (prices symbol).get? date = some x) (symbol : Symbol) (date : Date) (x : α) :
    Table.get? ((points.foldl (fun f p => f.add p.symbol p.date p.price) f).seriesOf symbol) date
      = some x ↔ ⟨symbol, date, x⟩ ∈ points ∨ Table.get? (f.seriesOf symbol) date = some x := by
  induction points generalizing f with
  | nil => simp
  | cons p points ih =>
    obtain ⟨hp, hpoints⟩ := List.forall_mem_cons.1 h
    rw [List.foldl_cons, ih hpoints, get?_seriesOf_add]
    · by_cases hmatch : symbol = p.symbol ∧ date = p.date
      · obtain ⟨rfl, rfl⟩ := hmatch
        have heq : (⟨p.symbol, p.date, x⟩ : PricePoint α) = p ↔ p.price = x := by
          obtain ⟨_, _, _⟩ := p
          simp [eq_comm]
        have hold : Table.get? (f.seriesOf p.symbol) p.date = some x → p.price = x :=
          fun hx => Option.some.inj (hp.symm.trans (hf _ _ _ hx))
        rw [if_pos ⟨rfl, rfl⟩, List.mem_cons, heq, Option.some.injEq]
        tauto
      · have hne : (⟨symbol, date, x⟩ : PricePoint α) ≠ p := by
          rintro rfl
          exact hmatch ⟨rfl, rfl⟩
        rw [if_neg hmatch, List.mem_cons, or_iff_right hne]
    · intro symbol date x hx
      rw [get?_seriesOf_add] at hx
      split at hx
      · rename_i hmatch
        rw [hmatch.1, hmatch.2, hp, hx]
      · exact hf symbol date x hx

theorem price?_eq (f : Fetched α) (r : PointRequest) :
    f.price? r = (f.seriesOf r.symbol).latestWithin r.date := by
  rw [price?, seriesOf]
  cases f.series.get? r.symbol <;> rfl

/-- **A volatility is that of the returns inside its symbol's window.**  There is no telling it
for a symbol with prices whose window runs backwards. -/
theorem stdev?_eq [Scalar α] (f : Fetched α) {windows : Table Symbol DateWindow} {w : DateWindow}
    (r : WindowRequest) (hw : windows.get? r.symbol = some w) :
    f.stdev? windows r =
      if f.series.contains r.symbol = true ∧ w.2 < w.1 then
        .error (.reversedWindow r.symbol w.1 w.2)
      else .ok (annualizedStdev (returnsOf (Table.between (f.seriesOf r.symbol) w.1 w.2).entries)
        r.start r.stop) := by
  rw [stdev?, hw, seriesOf, Table.contains]
  cases hs : f.series.get? r.symbol with
  | none =>
    rw [if_neg fun h => Bool.false_ne_true h.1]
    rfl
  | some s =>
    simp only [dailyReturns, Option.isSome_some, true_and, Option.getD_some]
    split <;> rfl

end Fetched

namespace Loader

variable {l : Loader α} {m : Market α} {r : Requirements} {cache : Cache α}
  {windows : Table Symbol DateWindow} {overall w : DateWindow} {fetched : Fetched α}
  {symbol : Symbol}

def rangesOf (windows : Table Symbol DateWindow) : List SymbolRange :=
  windows.entries.map fun e => ⟨e.1, e.2.1.back gapDays, e.2.2⟩

theorem mem_ranges_iff (hw : windows.get? symbol = some w) {range : SymbolRange} :
    (range ∈ rangesOf windows ∧ symbol = range.symbol) ↔
      range = ⟨symbol, w.1.back gapDays, w.2⟩ := by
  rw [rangesOf, List.mem_map]
  constructor
  · rintro ⟨⟨e, he, rfl⟩, rfl⟩
    rw [Table.get?_eq_some_iff.2 he] at hw
    cases hw
    rfl
  · rintro rfl
    exact ⟨⟨(symbol, w), Table.get?_eq_some_iff.1 hw, rfl⟩, rfl⟩

/-- **Of every symbol its window is fetched, and the week before it.** -/
theorem seriesOf_ofPoints {prices : Symbol → Series α} (hp : l.prices.GivesOut prices)
    {points : List (PricePoint α)} (h : l.prices.points (rangesOf windows) = .ok points)
    (days : List Date) (hw : windows.get? symbol = some w) :
    (Fetched.ofPoints points days).seriesOf symbol =
      Table.between (prices symbol) (w.1.back gapDays) w.2 := by
  have hmem := hp _ points h
  refine Table.ext_get? fun date => Option.ext fun x => ?_
  rw [Fetched.ofPoints, Fetched.get?_seriesOf_foldl_add prices, hmem, Series.get?_between]
  · have hempty : Table.get? (Fetched.seriesOf (⟨∅, days⟩ : Fetched α) symbol) date ≠ some x :=
      nofun
    rw [or_iff_left hempty]
    constructor
    · rintro ⟨range, hrange, hsymbol, hstart, hstop, hprice⟩
      obtain rfl := (mem_ranges_iff hw).1 ⟨hrange, hsymbol⟩
      rw [if_pos ⟨hstart, hstop⟩, hprice]
    · intro hx
      split at hx
      · rename_i hd
        obtain ⟨hrange, hsymbol⟩ := (mem_ranges_iff hw).2 rfl
        exact ⟨_, hrange, hsymbol, hd.1, hd.2, hx⟩
      · cases hx
  · intro p hp
    obtain ⟨_, _, _, _, _, hprice⟩ := (hmem p).1 hp
    exact hprice
  · intro symbol date x hx
    cases hx

theorem seriesOf_fetch (hl : l.Keeps m) (h : l.fetch windows overall = .ok fetched)
    (hw : windows.get? symbol = some w) :
    fetched.seriesOf symbol = Table.between (m.prices symbol) (w.1.back gapDays) w.2 := by
  rw [fetch] at h
  obtain ⟨points, hpoints, h⟩ := Except.bind_eq_ok_iff.1 h
  obtain ⟨days, _, h⟩ := Except.bind_eq_ok_iff.1 h
  simp only [hl.quotes] at h
  obtain rfl := Except.pure_eq_ok_iff.1 h
  exact seriesOf_ofPoints hl.points (Except.mapError_eq_ok_iff.1 hpoints) days hw

theorem seriesOf_fetchFor (hl : l.Keeps m) (h : l.fetchFor r = .ok fetched)
    (hw : r.symbolWindows.get? symbol = some w) :
    fetched.seriesOf symbol = Table.between (m.prices symbol) (w.1.back gapDays) w.2 := by
  rw [fetchFor] at h
  split at h
  · rename_i hnone
    have hmem : w ∈ r.symbolWindows.values :=
      List.mem_map.2 ⟨_, Table.get?_eq_some_iff.1 hw, rfl⟩
    cases hvalues : r.symbolWindows.values with
    | nil =>
      rw [hvalues] at hmem
      cases hmem
    | cons v rest =>
      rw [hvalues] at hnone
      cases hnone
  · exact seriesOf_fetch hl h hw

/-- A listed price comes from the week before its date, wherever its symbol's window ends. -/
theorem price?_eq_latestWithin (hl : l.Keeps m) (h : l.fetchFor r = .ok fetched) {date : Date}
    (hq : r.Lists (.price symbol date)) :
    fetched.price? ⟨symbol, date⟩ = (m.prices symbol).latestWithin date := by
  obtain ⟨w, hw, hlow, hhigh⟩ := Requirements.covers_price hq
  rw [Fetched.price?_eq, seriesOf_fetchFor hl h hw,
    Series.latestWithin_between _ (Date.back_le_back hlow (by decide)) hhigh]

variable [Scalar α]

theorem stdev?_eq_volatility (hl : l.Keeps m) (h : l.fetchFor r = .ok fetched) {start stop : Date}
    {x : Option α} (hq : r.Lists (.stdev symbol start stop))
    (hx : fetched.stdev? r.symbolWindows ⟨symbol, start, stop⟩ = .ok x) :
    x = m.volatility r.symbolWindows symbol start stop := by
  obtain ⟨w, hw, _⟩ := Requirements.covers_stdev hq
  have hseries : Table.between (fetched.seriesOf symbol) w.1 w.2 =
      Table.between (m.prices symbol) w.1 w.2 := by
    rw [seriesOf_fetchFor hl h hw,
      Series.between_between _ (Date.back_le _ (by decide)) (Date.le_refl _)]
  rw [Market.volatility, hw, Option.bind_some, Market.returns, ← hseries]
  rw [Fetched.stdev?_eq fetched ⟨symbol, start, stop⟩ hw] at hx
  split at hx
  · cases hx
  · exact (Except.ok.inj hx).symm

/-- **A loaded cache answers as the market behind it** whatever it was loaded for. -/
theorem agree_market (hl : l.Keeps m) (h : l.load r = .ok cache) {q : Question} (hq : r.Lists q) :
    cache.source.Agree (m.source (m.volatility r.symbolWindows)) q := by
  obtain ⟨fetched, hc⟩ := loaded_of_load h
  cases q with
  | price symbol date =>
    have hprice : cache.prices.get? ⟨symbol, date⟩ = (m.prices symbol).latestWithin date := by
      apply Option.ext
      intro x
      rw [hc.price, price?_eq_latestWithin hl hc.fetch_eq hq]
      exact and_iff_right hq
    have hrequested := (hc.requestedPrice ⟨symbol, date⟩).2 hq
    simp only [MetricSource.Agree, MetricSource.answer, Cache.source, Cache.price, Market.source,
      hprice, hrequested]
    cases (m.prices symbol).latestWithin date <;> rfl
  | stdev symbol start stop =>
    obtain ⟨v, hv⟩ := hc.exists_stdev ⟨symbol, start, stop⟩ hq
    have hstdev : cache.stdevs.get? ⟨symbol, start, stop⟩ =
        m.volatility r.symbolWindows symbol start stop := by
      apply Option.ext
      intro x
      rw [hc.stdev, hv, ← stdev?_eq_volatility hl hc.fetch_eq hq hv, Except.ok.injEq]
      exact and_iff_right hq
    have hrequested := (hc.requestedStdev ⟨symbol, start, stop⟩).2 hq
    simp only [MetricSource.Agree, MetricSource.answer, Cache.source, Cache.stdev, Market.source,
      hstdev, hrequested]
    cases m.volatility r.symbolWindows symbol start stop <;> rfl
  | fundamentals symbol date =>
    obtain ⟨x, hx⟩ := hc.exists_record ⟨symbol, date⟩ hq
    have hrecord := (hc.record ⟨symbol, date⟩ x).2 ⟨hq, hx⟩
    have hkept := hl.record _ x hx
    simp only [MetricSource.Agree, MetricSource.answer, Cache.source, Cache.record, Market.source,
      hrecord, hkept]
    rfl

end Loader

end FactorPortfolio
