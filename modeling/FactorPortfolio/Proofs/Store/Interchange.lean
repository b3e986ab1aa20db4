import FactorPortfolio.Proofs.Calendar.TextOrder
import FactorPortfolio.Proofs.Except
import FactorPortfolio.Proofs.Scalar.Value
import FactorPortfolio.Proofs.Store.Calendar
import FactorPortfolio.Store.Database
import Mathlib.Tactic.Order

/-!
# Stores that answer alike

A store in memory holds a table of dates for each symbol; a store of rows holds one table, and in
its keys the dates as text.  `Rows` says that the one holds what the others hold, with every value
passed through a function on its way in.  As long as all years have four digits, the rows of a
symbol between two dates are then its entries between them, in the same order
(`Rows.filter_entries`), and all answers are read off such parts.

* `Mirrors.put`: putting the same into both stores keeps them alike.
* `Mirrors.answersAs`: stores that are alike give the same answers.
* `answersAs_of_insertions`: so they do after any insertions, where a zero with a sign among the
  figures comes back without it.
* `negative_zero_told_apart`: that the sign is lost shows in the answer.
-/

namespace FactorPortfolio

/-! ### Zero and its sign -/

namespace Binary64

theorem isNaN_of_isFinite {x : Float} (h : x.isFinite = true) : x.isNaN = false := by
  obtain ⟨_, hx⟩ := exists_value_of_isFinite h
  exact isNaN_of_value hx

/-- A number with its sign taken off if it is zero. -/
def unsigned (x : Float) : Float := if x = -0.0 then 0.0 else x

/-- Two numbers equal zero, the one without a sign and the one with it. -/
theorem ite_beq_zero (x : Float) : (if x == 0.0 then 0.0 else x) = unsigned x := by
  rw [unsigned]
  by_cases hzero : (x == 0.0) = true
  · obtain ⟨_, _, rfl | ⟨_, hsign⟩ | ⟨hsign, _⟩⟩ := Float.beq_iff_ne_nan_and_eq.1 hzero
    · rw [if_pos hzero, if_neg (by decide)]
    · exact absurd hsign (by decide)
    · rw [if_pos hzero, if_pos (show x = -0.0 from hsign)]
  · have hne : x ≠ -0.0 := by
      rintro rfl
      exact hzero (by decide)
    rw [if_neg hzero, if_neg hne]

theorem unsigned_of_pos {x : Float} (h : 0 < x) : unsigned x = x := by
  have hne : x ≠ -0.0 := by
    rintro rfl
    exact absurd h (by decide)
  rw [unsigned, if_neg hne]

end Binary64

/-! ### Rows of dated tables -/

section

variable {μ ν : Type} {rows : Table RowKey μ} {f : ν → μ} {tables : Symbol → Table Date ν}

/-- The rows are the entries of one table for each symbol, with `f` of their values and the texts of
their dates, and all dates have years of four digits. -/
structure Rows (rows : Table RowKey μ) (f : ν → μ) (tables : Symbol → Table Date ν) : Prop where
  get?_text : ∀ symbol date, rows.get? ⟨symbol, date.text⟩ = ((tables symbol).get? date).map f
  dated : ∀ key, rows.contains key = true → ∃ date : Date, date.FourDigitYear ∧ key.date = date.text

theorem Rows.insert (h : Rows rows f tables) {symbol : Symbol} {date : Date}
    (hdate : date.FourDigitYear) (x : ν) {tables' : Symbol → Table Date ν}
    (hself : tables' symbol = (tables symbol).insert date x)
    (hother : ∀ symbol', symbol' ≠ symbol → tables' symbol' = tables symbol') :
    Rows (rows.insert ⟨symbol, date.text⟩ (f x)) f tables' where
  get?_text symbol' date' := by
    by_cases hsymbol : symbol' = symbol
    · subst hsymbol
      rw [hself]
      by_cases hday : date' = date
      · rw [hday, Table.get?_insert_self, Table.get?_insert_self, Option.map_some]
      · have hkey : (⟨symbol', date'.text⟩ : RowKey) ≠ ⟨symbol', date.text⟩ := fun he =>
          hday (Date.text_injective (RowKey.mk.inj he).2)
        rw [Table.get?_insert_of_ne _ hkey, Table.get?_insert_of_ne _ hday, h.get?_text]
    · have hkey : (⟨symbol', date'.text⟩ : RowKey) ≠ ⟨symbol, date.text⟩ := fun he =>
        hsymbol (RowKey.mk.inj he).1
      rw [Table.get?_insert_of_ne _ hkey, hother symbol' hsymbol, h.get?_text]
  dated key hkey := by
    by_cases heq : key = ⟨symbol, date.text⟩
    · exact ⟨date, hdate, heq ▸ rfl⟩
    · rw [Table.contains, Table.get?_insert_of_ne _ heq] at hkey
      exact h.dated key hkey

theorem Rows.fourDigitYear (h : Rows rows f tables) {symbol : Symbol} {date : Date} {x : ν}
    (hx : (tables symbol).get? date = some x) : date.FourDigitYear := by
  have hrow : rows.contains ⟨symbol, date.text⟩ = true := by
    rw [Table.contains, h.get?_text, hx]
    rfl
  obtain ⟨date', hyear, htext⟩ := h.dated _ hrow
  rwa [Date.text_injective htext]

theorem Rows.get?_eq_some_iff (h : Rows rows f tables) {symbol : Symbol} {text : String} {y : μ} :
    rows.get? ⟨symbol, text⟩ = some y ↔
      ∃ date x, (tables symbol).get? date = some x ∧ date.text = text ∧ f x = y := by
  constructor
  · intro hrow
    obtain ⟨date, _, rfl⟩ := h.dated ⟨symbol, text⟩ (by rw [Table.contains, hrow]; rfl)
    rw [h.get?_text, Option.map_eq_some_iff] at hrow
    obtain ⟨x, hx, hfx⟩ := hrow
    exact ⟨date, x, hx, rfl, hfx⟩
  · rintro ⟨date, x, hx, rfl, rfl⟩
    rw [h.get?_text, hx, Option.map_some]

/-- **The rows of a symbol with some dates are the entries of its table with these dates**, in the
same order. -/
theorem Rows.filter_entries (h : Rows rows f tables) (symbol : Symbol) (inText : String → Bool)
    (inDate : Date → Bool)
    (hin : ∀ date : Date, date.FourDigitYear → inText date.text = inDate date) :
    rows.entries.filter (fun e => e.1.symbol == symbol && inText e.1.date) =
      ((tables symbol).filter fun date _ => inDate date).entries.map fun e =>
        (⟨symbol, e.1.text⟩, f e.2) := by
  have hyear : ∀ e ∈ (tables symbol).entries, e.1.FourDigitYear := fun e he =>
    h.fourDigitYear (Table.get?_eq_some_iff.2 he)
  refine Table.eq_of_ascending Prod.fst (rows.ascending.filter _) ?_ ?_
  · -- entries in order of their dates are in order of the texts of their dates
    refine List.pairwise_map.2 (List.Pairwise.imp_of_mem ?_ (Table.ascending _))
    intro e e' he he' hlt
    have hdate := hyear e (List.mem_filter.1 he).1
    have hdate' := hyear e' (List.mem_filter.1 he').1
    show (compare symbol symbol).then (compare e.1.text e'.1.text) = .lt
    rw [Std.ReflOrd.compare_self, Date.compare_text hdate hdate', hlt]
    rfl
  · rintro ⟨⟨symbol', text⟩, y⟩
    rw [List.mem_filter, List.mem_map, ← Table.get?_eq_some_iff, h.get?_eq_some_iff,
      Bool.and_eq_true, beq_iff_eq]
    constructor
    · rintro ⟨⟨date, x, hx, rfl, rfl⟩, rfl, htext⟩
      rw [hin date (h.fourDigitYear hx)] at htext
      exact ⟨(date, x), List.mem_filter.2 ⟨Table.get?_eq_some_iff.1 hx, htext⟩, rfl⟩
    · rintro ⟨⟨date, x⟩, he, heq⟩
      obtain ⟨hentry, hdate⟩ := List.mem_filter.1 he
      have hx := Table.get?_eq_some_iff.2 hentry
      obtain ⟨⟨rfl, rfl⟩, rfl⟩ : (symbol = symbol' ∧ date.text = text) ∧ f x = y := by
        simpa using heq
      rw [hin date (h.fourDigitYear hx)]
      exact ⟨⟨date, x, hx, rfl, rfl⟩, rfl, hdate⟩

end

/-! ### Putting the same into both stores -/

namespace Fundamentals

variable {α : Type}

def figures (r : Fundamentals α) : List α :=
  [r.sharesOutstanding, r.eps, r.totalAssets, r.totalLiabilities].filterMap id

theorem mem_figures_iff {r : Fundamentals α} {x : α} : x ∈ r.figures ↔
    x ∈ r.sharesOutstanding ∨ x ∈ r.eps ∨ x ∈ r.totalAssets ∨ x ∈ r.totalLiabilities := by
  simp [figures, eq_comm]

def map (f : α → α) (r : Fundamentals α) : Fundamentals α :=
  ⟨r.sharesOutstanding.map f, r.eps.map f, r.totalAssets.map f, r.totalLiabilities.map f⟩

end Fundamentals

/-- What is put into a store at once. -/
inductive Insertion (α : Type) where
  | prices (points : List (PricePoint α))
  | record (symbol : Symbol) (date : Date) (figures : Fundamentals α)

/-- Years have four digits, prices are positive and finite, and figures are finite where they are
there. -/
def Insertion.Admitted : Insertion Float → Prop
  | prices points => ∀ p ∈ points, p.date.FourDigitYear ∧ 0 < p.price ∧ p.price.isFinite = true
  | record _ date r => date.FourDigitYear ∧ ∀ x ∈ r.figures, x.isFinite = true

instance : ∀ i : Insertion Float, Decidable i.Admitted
  | .prices points => inferInstanceAs (Decidable (∀ p ∈ points,
      p.date.FourDigitYear ∧ 0 < p.price ∧ p.price.isFinite = true))
  | .record _ date r => inferInstanceAs (Decidable (date.FourDigitYear ∧
      ∀ x ∈ r.figures, x.isFinite = true))

def MemoryStore.put {α : Type} (s : MemoryStore α) : Insertion α → MemoryStore α
  | .prices points => points.foldl (fun s p => s.insertPrice p.symbol p.date p.price) s
  | .record symbol date r => s.insertFundamentals symbol date r

def DatabaseStore.put {α : Type} [Scalar α] (s : DatabaseStore α) :
    Insertion α → Except StoreError (DatabaseStore α)
  | .prices points => s.insertPrices points
  | .record symbol date r => .ok (s.insertFundamentals symbol date r)

/-- The rows are those of what is in memory, and the same number of symbols makes a trading day. -/
structure Mirrors (database : DatabaseStore Float) (memory : MemoryStore Float) : Prop where
  prices : Rows database.prices id memory.series
  records : Rows database.fundamentals (Fundamentals.map Binary64.unsigned) memory.records
  minSymbols : database.minSymbols = memory.minSymbols
  minSymbols_lt : memory.minSymbols < 9223372036854775808
  failure : memory.failure = none

theorem DatabaseStore.kept_of_finite {x : Option Float} (h : ∀ y ∈ x, y.isFinite = true) :
    kept x = x.map Binary64.unsigned := by
  cases x with
  | none => rfl
  | some y =>
    have hnumber : Scalar.isNaN y = false := Binary64.isNaN_of_isFinite (h y rfl)
    rw [kept, Option.filter_some, hnumber, if_pos (by decide), Option.map_some, Option.map_some]
    exact congrArg some (Binary64.ite_beq_zero y)

namespace Mirrors

open Binary64 DatabaseStore

variable {database : DatabaseStore Float} {memory : MemoryStore Float}

theorem empty {minSymbols : Nat} (h : minSymbols < 9223372036854775808) :
    Mirrors (.empty minSymbols) (.empty minSymbols) where
  prices := ⟨fun _ _ => rfl, fun _ h => by cases h⟩
  records := ⟨fun _ _ => rfl, fun _ h => by cases h⟩
  minSymbols := rfl
  minSymbols_lt := by
    show Nat.max minSymbols 1 < _
    exact Nat.max_lt.2 ⟨h, by decide⟩
  failure := rfl

theorem insertPrice (h : Mirrors database memory) {p : PricePoint Float}
    (hdate : p.date.FourDigitYear) (hpos : 0 < p.price) (hfinite : p.price.isFinite = true) :
    ∃ database', database.insertPrice p = .ok database' ∧
      Mirrors database' (memory.insertPrice p.symbol p.date p.price) := by
  have hnumber : Scalar.isNaN p.price = false := isNaN_of_isFinite hfinite
  have hzero : unsignedZero p.price = p.price := (ite_beq_zero p.price).trans (unsigned_of_pos hpos)
  refine ⟨_, by rw [DatabaseStore.insertPrice, hnumber, hzero]; rfl, ?_⟩
  refine ⟨h.prices.insert hdate p.price ?_ ?_, h.records, h.minSymbols, h.minSymbols_lt, h.failure⟩
  · exact memory.series_insertPrice_self p.symbol p.date p.price
  · exact fun symbol' hne => memory.series_insertPrice_of_ne hne p.date p.price

theorem insertFundamentals (h : Mirrors database memory) {symbol : Symbol} {date : Date}
    {r : Fundamentals Float} (hdate : date.FourDigitYear)
    (hfinite : ∀ x ∈ r.figures, x.isFinite = true) :
    Mirrors (database.insertFundamentals symbol date r)
      (memory.insertFundamentals symbol date r) := by
  simp only [Fundamentals.mem_figures_iff, or_imp, forall_and] at hfinite
  obtain ⟨hshares, heps, hassets, hliabilities⟩ := hfinite
  refine ⟨h.prices, ?_, h.minSymbols, h.minSymbols_lt, h.failure⟩
  rw [DatabaseStore.insertFundamentals, kept_of_finite hshares, kept_of_finite heps,
    kept_of_finite hassets, kept_of_finite hliabilities]
  exact h.records.insert hdate r (memory.records_insertFundamentals_self symbol date r)
    fun symbol' hne => memory.records_insertFundamentals_of_ne hne date r

/-- **What is put into both stores keeps them alike.** -/
theorem put (h : Mirrors database memory) {insertion : Insertion Float}
    (hadmitted : insertion.Admitted) :
    ∃ database', database.put insertion = .ok database' ∧
      Mirrors database' (memory.put insertion) := by
  cases insertion with
  | prices points =>
    refine Except.exists_foldlM_eq_ok ?_ h
    intro p hp database memory h
    obtain ⟨hdate, hpos, hfinite⟩ := hadmitted p hp
    exact h.insertPrice hdate hpos hfinite
  | record symbol date r => exact ⟨_, rfl, h.insertFundamentals hadmitted.1 hadmitted.2⟩

end Mirrors

/-! ### Symbols with a price on a date -/

namespace DatabaseStore

variable {α : Type} (s : DatabaseStore α) (text : String)

def symbolsOn : List Symbol := (s.prices.keys.filter fun k => k.date == text).map RowKey.symbol

theorem length_symbolsOn : (s.symbolsOn text).length = s.symbolCount text := by
  rw [symbolsOn, List.length_map, ← List.countP_eq_length_filter, symbolCount]

theorem mem_symbolsOn {symbol : Symbol} :
    symbol ∈ s.symbolsOn text ↔ s.prices.contains ⟨symbol, text⟩ = true := by
  rw [← Table.mem_keys_iff, symbolsOn, List.mem_map]
  constructor
  · rintro ⟨⟨_, text'⟩, hkey, rfl⟩
    obtain ⟨hmem, htext⟩ := List.mem_filter.1 hkey
    obtain rfl : text' = text := beq_iff_eq.1 htext
    exact hmem
  · exact fun hmem => ⟨_, List.mem_filter.2 ⟨hmem, beq_iff_eq.2 rfl⟩, rfl⟩

theorem nodup_symbolsOn : (s.symbolsOn text).Nodup := by
  refine List.Nodup.map_on ?_ (s.prices.nodup_keys.filter _)
  rintro ⟨symbol, text₁⟩ hkey ⟨symbol', text₂⟩ hkey' hsymbol
  obtain rfl : text₁ = text := beq_iff_eq.1 (List.mem_filter.1 hkey).2
  obtain rfl : text₂ = text₁ := beq_iff_eq.1 (List.mem_filter.1 hkey').2
  exact congrArg (RowKey.mk · text₂) hsymbol

end DatabaseStore

namespace MemoryStore

variable {α : Type} (s : MemoryStore α) (date : Date)

def symbolsOn : List Symbol := (s.prices.entries.filter fun e => e.2.contains date).map Prod.fst

theorem length_symbolsOn : (s.symbolsOn date).length = s.symbolCount date := by
  rw [symbolsOn, List.length_map, ← List.countP_eq_length_filter, symbolCount, Table.values,
    List.countP_map]
  rfl

theorem mem_symbolsOn {symbol : Symbol} :
    symbol ∈ s.symbolsOn date ↔ (s.series symbol).contains date = true := by
  rw [contains_series_iff, symbolsOn, List.mem_map]
  constructor
  · rintro ⟨⟨_, series⟩, he, rfl⟩
    obtain ⟨hentry, hdate⟩ := List.mem_filter.1 he
    exact ⟨series, Table.get?_eq_some_iff.2 hentry, hdate⟩
  · rintro ⟨series, hseries, hdate⟩
    exact ⟨_, List.mem_filter.2 ⟨Table.get?_eq_some_iff.1 hseries, hdate⟩, rfl⟩

theorem nodup_symbolsOn : (s.symbolsOn date).Nodup :=
  s.prices.nodup_keys.sublist (List.filter_sublist.map _)

end MemoryStore

/-! ### Trading days of stores that are alike -/

namespace Mirrors

variable {database : DatabaseStore Float} {memory : MemoryStore Float}

theorem contains_prices (h : Mirrors database memory) (symbol : Symbol) (date : Date) :
    database.prices.contains ⟨symbol, date.text⟩ = (memory.series symbol).contains date := by
  rw [Table.contains, h.prices.get?_text, Option.map_id]
  rfl

theorem symbolCount_text (h : Mirrors database memory) (date : Date) :
    database.symbolCount date.text = memory.symbolCount date := by
  have hmem : ∀ symbol, symbol ∈ database.symbolsOn date.text ↔ symbol ∈ memory.symbolsOn date := by
    intro symbol
    rw [DatabaseStore.mem_symbolsOn, MemoryStore.mem_symbolsOn, h.contains_prices]
  have hperm := (List.perm_ext_iff_of_nodup (database.nodup_symbolsOn date.text)
    (memory.nodup_symbolsOn date)).2 hmem
  rw [← DatabaseStore.length_symbolsOn, ← MemoryStore.length_symbolsOn, hperm.length_eq]

/-- The least count is small enough to be the same as a signed number. -/
theorem bmod_minSymbols (h : Mirrors database memory) :
    Int.bmod database.minSymbols 18446744073709551616 = memory.minSymbols := by
  have hlt := h.minSymbols_lt
  rw [h.minSymbols]
  exact Int.bmod_eq_of_le (by omega) (by omega)

theorem isTradingDay_text (h : Mirrors database memory) (date : Date) :
    database.isTradingDay date.text = memory.isTradingDay date := by
  have hcount : Int.bmod database.minSymbols 18446744073709551616 ≤
      database.symbolCount date.text ↔ memory.minSymbols ≤ memory.symbolCount date := by
    rw [h.bmod_minSymbols, h.symbolCount_text, Int.ofNat_le]
  exact decide_eq_decide.2 hcount

theorem mem_tradingDays (h : Mirrors database memory) {text : String} :
    text ∈ database.tradingDays ↔ ∃ date, memory.TradesOn date ∧ date.text = text := by
  rw [DatabaseStore.tradingDays, List.mem_filter, Table.mem_keys_iff, DatabaseStore.dates,
    KeySet.contains_ofList, List.mem_map]
  constructor
  · rintro ⟨⟨⟨symbol, text⟩, hkey, rfl⟩, hcount⟩
    rw [Table.mem_keys_iff] at hkey
    obtain ⟨date, _, rfl⟩ := h.prices.dated _ hkey
    rw [h.contains_prices] at hkey
    rw [h.isTradingDay_text] at hcount
    exact ⟨date, ⟨memory.contains_dates_iff.2 ⟨symbol, hkey⟩, hcount⟩, rfl⟩
  · rintro ⟨date, ⟨hdate, hcount⟩, rfl⟩
    obtain ⟨symbol, hprice⟩ := memory.contains_dates_iff.1 hdate
    rw [← h.contains_prices] at hprice
    exact ⟨⟨_, Table.mem_keys_iff.2 hprice, rfl⟩, (h.isTradingDay_text date).trans hcount⟩

theorem fourDigitYear_of_tradesOn (h : Mirrors database memory) {date : Date}
    (hdate : memory.TradesOn date) : date.FourDigitYear := by
  obtain ⟨symbol, hprice⟩ := memory.contains_dates_iff.1 hdate.1
  obtain ⟨x, hx⟩ := Option.isSome_iff_exists.1 hprice
  exact h.prices.fourDigitYear hx

/-- **The texts of trading days between two dates are those of the trading days in memory.** -/
theorem filter_tradingDays (h : Mirrors database memory) (start stop : Date)
    (inText : String → Bool) (hin : ∀ date : Date, date.FourDigitYear →
      (inText date.text = true ↔ start ≤ date ∧ date ≤ stop)) :
    database.tradingDays.filter inText = (memory.tradingDays start stop).map Date.text := by
  have hyear : ∀ date ∈ memory.tradingDays start stop, date.FourDigitYear := fun date hdate =>
    h.fourDigitYear_of_tradesOn (memory.mem_tradingDays.1 hdate).2.2
  refine Table.eq_of_ascending id ?_ ?_ ?_
  · exact ((List.pairwise_map.2 (Table.ascending _)).filter _).filter _
  · -- days in order are in order of their texts
    have hdays := memory.pairwise_tradingDays start stop
    refine List.pairwise_map.2 (hdays.imp_of_mem fun {date date'} hdate hdate' hlt => ?_)
    rw [id, id, Date.compare_text (hyear date hdate) (hyear date' hdate')]
    exact Date.compare_eq_lt.2 hlt
  · intro text
    rw [List.mem_filter, h.mem_tradingDays, List.mem_map]
    constructor
    · rintro ⟨⟨date, hdate, rfl⟩, htext⟩
      obtain ⟨hstart, hstop⟩ := (hin date (h.fourDigitYear_of_tradesOn hdate)).1 htext
      exact ⟨date, memory.mem_tradingDays.2 ⟨hstart, hstop, hdate⟩, rfl⟩
    · rintro ⟨date, hdate, rfl⟩
      obtain ⟨hstart, hstop, htrades⟩ := memory.mem_tradingDays.1 hdate
      exact ⟨⟨date, htrades, rfl⟩, (hin date (hyear date hdate)).2 ⟨hstart, hstop⟩⟩

end Mirrors

/-! ### The answers -/

/-- What a database answers is what a store in memory answers, as far as years have four digits. A
figure that is zero comes without a sign. -/
structure DatabaseStore.AnswersAs (database : DatabaseStore Float) (memory : MemoryStore Float) :
    Prop where
  points : ∀ ranges : List SymbolRange,
    (∀ r ∈ ranges, r.start.FourDigitYear ∧ r.stop.FourDigitYear) →
      database.priceStore.points ranges = memory.priceStore.points ranges
  tradingDays : ∀ start stop : Date, start.FourDigitYear → stop.FourDigitYear →
    database.priceStore.tradingDays start stop = memory.priceStore.tradingDays start stop
  pricesOn : ∀ (symbols : List Symbol) (date : Date),
    database.priceStore.pricesOn symbols date = memory.priceStore.pricesOn symbols date
  latestDay : database.priceStore.latestDay = memory.priceStore.latestDay
  latest : ∀ (symbol : Symbol) (date : Date), date.FourDigitYear →
    database.fundamentalsStore.latest symbol date =
      (memory.fundamentalsStore.latest symbol date).map
        (Option.map (Fundamentals.map Binary64.unsigned))

theorem DatabaseStore.readDate_text (date : Date) : readDate date.text = .ok date := by
  rw [readDate, Date.ofText?_text]

theorem DatabaseStore.mapM_readDate_text (days : List Date) :
    (days.map Date.text).mapM readDate = .ok days := by
  have hread : days.mapM (readDate ∘ Date.text) = .ok (days.map id) :=
    Except.mapM_eq_ok fun date _ => readDate_text date
  rw [List.mapM_map, hread, List.map_id]

theorem DatabaseStore.within_text {start stop : Date} (hstart : start.FourDigitYear)
    (hstop : stop.FourDigitYear) {date : Date} (hdate : date.FourDigitYear) :
    within start stop date.text = ((compare start date).isLE && (compare date stop).isLE) := by
  rw [within, Date.compare_text hstart hdate, Date.compare_text hdate hstop]

namespace Mirrors

open DatabaseStore

variable {database : DatabaseStore Float} {memory : MemoryStore Float}

theorem pointsIn (h : Mirrors database memory) {range : SymbolRange}
    (hstart : range.start.FourDigitYear) (hstop : range.stop.FourDigitYear) :
    database.pointsIn range = .ok (memory.pointsIn range) := by
  have hrows := h.prices.filter_entries range.symbol (within range.start range.stop) _
    fun date hdate => within_text hstart hstop hdate
  rw [DatabaseStore.pointsIn, hrows, List.mapM_map, MemoryStore.pointsIn, Table.between]
  refine Except.mapM_eq_ok fun e _ => ?_
  show (readDate e.1.text >>= fun date => pure _) = _
  rw [readDate_text]
  rfl

theorem latestRecord (h : Mirrors database memory) (symbol : Symbol) {date : Date}
    (hdate : date.FourDigitYear) : (database.recordsUpTo symbol date).getLast? =
      (((memory.records symbol).upTo date).last?.map Prod.snd).map
        (Fundamentals.map Binary64.unsigned) := by
  have hrows := h.records.filter_entries symbol (fun text => (compare text date.text).isLE)
    (fun date' => (compare date' date).isLE) fun date' hdate' => by
      rw [Date.compare_text hdate' hdate]
  rw [DatabaseStore.recordsUpTo, hrows, List.map_map, List.getLast?_map, Table.upTo, Table.last?,
    Option.map_map]
  rfl

/-- **Stores that are alike give the same answers.** -/
theorem answersAs (h : Mirrors database memory) : database.AnswersAs memory where
  points ranges hranges := by
    show (ranges.mapM database.pointsIn).map List.flatten = memory.guarded _
    have hpoints : ∀ r ∈ ranges, database.pointsIn r = .ok (memory.pointsIn r) := fun r hr =>
      h.pointsIn (hranges r hr).1 (hranges r hr).2
    rw [MemoryStore.guarded_of_failure h.failure, List.flatMap, Except.mapM_eq_ok hpoints]
    rfl
  tradingDays start stop hstart hstop := by
    show (database.tradingDays.filter (within start stop)).mapM readDate = memory.guarded _
    have hdays := h.filter_tradingDays start stop (within start stop) fun date hdate => by
      rw [within_text hstart hstop hdate, Bool.and_eq_true, Date.isLE_compare, Date.isLE_compare]
    rw [MemoryStore.guarded_of_failure h.failure, hdays, mapM_readDate_text]
  pricesOn symbols date := by
    show _ = memory.guarded _
    rw [MemoryStore.guarded_of_failure h.failure]
    simp only [DatabaseStore.priceStore, DatabaseStore.pricesOn, MemoryStore.pricesOn,
      h.prices.get?_text, Option.map_id, id]
  latestDay := by
    -- all dates lie between the ends of the calendar
    have hall := h.filter_tradingDays .earliest .latest (fun _ => true) fun date _ =>
      iff_of_true rfl date.inRange
    rw [List.filter_true] at hall
    show database.tradingDays.getLast?.mapM readDate = memory.guarded _
    rw [MemoryStore.guarded_of_failure h.failure, hall, List.getLast?_map]
    cases (memory.tradingDays .earliest .latest).getLast? with
    | none => rfl
    | some last =>
      show some <$> readDate last.text = _
      rw [readDate_text]
      rfl
  latest symbol date hdate := by
    show Except.ok (database.recordsUpTo symbol date).getLast? = Except.map _ (memory.guarded _)
    rw [MemoryStore.guarded_of_failure h.failure, h.latestRecord symbol hdate]
    rfl

end Mirrors

/-- **After any insertions a database answers like a store in memory.**  All of them succeed, and
what comes back differs at most in the sign of a zero among the figures. -/
theorem answersAs_of_insertions {minSymbols : Nat} (h : minSymbols < 9223372036854775808)
    {insertions : List (Insertion Float)} (hadmitted : ∀ i ∈ insertions, i.Admitted) :
    ∃ database, insertions.foldlM DatabaseStore.put (.empty minSymbols) = .ok database ∧
      database.AnswersAs (insertions.foldl MemoryStore.put (.empty minSymbols)) := by
  have hstep : ∀ i ∈ insertions, ∀ database memory, Mirrors database memory →
      ∃ database', database.put i = .ok database' ∧ Mirrors database' (memory.put i) :=
    fun i hi _ _ halike => halike.put (hadmitted i hi)
  obtain ⟨database, hrun, halike⟩ := Except.exists_foldlM_eq_ok hstep (Mirrors.empty h)
  exact ⟨database, hrun, halike.answersAs⟩

def secondOfJanuary : Date := ⟨739192, by decide⟩

def negativeZero : Insertion Float :=
  .record "AAPL" secondOfJanuary ⟨none, some (-0.0), none, none⟩

/-- Two prices, one of which is replaced, and a figure that is zero with a sign. -/
def repriced : List (Insertion Float) :=
  [.prices [⟨"AAPL", secondOfJanuary, 100⟩, ⟨"GOOG", secondOfJanuary, 50⟩], negativeZero,
    .prices [⟨"AAPL", secondOfJanuary, 110⟩]]

theorem answersAs_of_insertions_repriced :
    ∃ database, repriced.foldlM DatabaseStore.put (.empty 2) = .ok database ∧
      database.AnswersAs (repriced.foldl MemoryStore.put (.empty 2)) ∧
      database.priceStore.points [⟨"AAPL", secondOfJanuary, secondOfJanuary⟩] =
        .ok [⟨"AAPL", secondOfJanuary, 110⟩] ∧
      database.priceStore.latestDay = .ok (some secondOfJanuary) := by
  obtain ⟨database, hrun, halike⟩ : ∃ database,
      repriced.foldlM DatabaseStore.put (.empty 2) = .ok database ∧
        database.AnswersAs (repriced.foldl MemoryStore.put (.empty 2)) :=
    answersAs_of_insertions (by decide) (by decide)
  refine ⟨database, hrun, halike, ?_, halike.latestDay.trans rfl⟩
  exact (halike.points _ (by decide)).trans rfl

/-- **The sign of a zero tells the stores apart**: it comes back from memory and not from a
database. -/
theorem negative_zero_told_apart :
    negativeZero.Admitted ∧
    ∃ database, [negativeZero].foldlM DatabaseStore.put (.empty 1) = .ok database ∧
      database.fundamentalsStore.latest "AAPL" secondOfJanuary ≠
        ([negativeZero].foldl MemoryStore.put (.empty 1)).fundamentalsStore.latest "AAPL"
          secondOfJanuary := by
  have hadmitted : negativeZero.Admitted := by decide
  have hempty : Mirrors (.empty 1) (.empty 1) := .empty (by decide)
  obtain ⟨database, hrun, halike⟩ := hempty.put hadmitted
  refine ⟨hadmitted, database, by rw [List.foldlM_cons, hrun]; rfl, fun heq => ?_⟩
  rw [halike.answersAs.latest _ _ (by decide)] at heq
  have hrecord : (⟨none, some 0.0, none, none⟩ : Fundamentals Float) =
      ⟨none, some (-0.0), none, none⟩ := Option.some.inj (Except.ok.inj heq)
  exact absurd (congrArg Fundamentals.eps hrecord) (by decide)

end FactorPortfolio
