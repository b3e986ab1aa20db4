import FactorPortfolio.Proofs.Scoring.Breakdown
import FactorPortfolio.Proofs.Scoring.Direct
import FactorPortfolio.Universe.Coverage
import Mathlib.Tactic.Common

/-!
# Coverage and gap filling

The symbols that a store covers for a stretch of dates are found by one question, for the prices
from a week before the stretch to its end.  A cache takes the price of a date from the week that
ends on it.  These weeks make up the same dates (`Date.exists_week_iff`), so that the symbols kept
are those that a cache can price on a date of the stretch: `check_fills`.

A store that has been told to fail prices nothing and says so, where one without the prices makes
for a universe without inputs: `check_of_failure`.
-/

namespace FactorPortfolio

/-- The weeks that end on the dates of a stretch make up the dates from a week before it to its
end. -/
theorem Date.exists_week_iff {start stop d : Date} (h : start ≤ stop) :
    (∃ date, start ≤ date ∧ date ≤ stop ∧ date.back gapDays ≤ d ∧ d ≤ date) ↔
      start.back gapDays ≤ d ∧ d ≤ stop := by
  constructor
  · rintro ⟨date, hstart, hstop, hback, hd⟩
    exact ⟨le_trans (back_le_back hstart (by decide)) hback, le_trans hd hstop⟩
  · rintro ⟨hback, hd⟩
    -- before the stretch its first date is the one to look back from
    refine ⟨start.max d, le_max_left _ _, max_le h hd, ?_, le_max_right _ _⟩
    rcases max_eq_or start d with heq | heq <;> rw [heq]
    · exact hback
    · exact back_le d (by decide)

variable {α : Type}

theorem Series.exists_latestWithin_iff {s : Series α} {date : Date} :
    (∃ x, s.latestWithin date = some x) ↔
      ∃ d x, date.back gapDays ≤ d ∧ d ≤ date ∧ s.get? d = some x := by
  rw [latestWithin, Table.last?]
  cases hlast : (Table.between s (date.back gapDays) date).entries.getLast? with
  | none =>
    have hnone := List.getLast?_eq_none_iff.1 hlast
    refine iff_of_false (by rintro ⟨_, ⟨⟩⟩) ?_
    rintro ⟨d, x, hlow, hhigh, hx⟩
    have hmem := (Series.mem_between s).2 ⟨Table.get?_eq_some_iff.1 hx, hlow, hhigh⟩
    rw [hnone] at hmem
    cases hmem
  | some e =>
    obtain ⟨hentry, hlow, hhigh⟩ := (Series.mem_between s).1 (List.mem_of_getLast? hlast)
    exact iff_of_true ⟨e.2, rfl⟩ ⟨e.1, e.2, hlow, hhigh, Table.get?_eq_some_iff.2 hentry⟩

/-! ### Filled prices -/

namespace MemoryStore

variable [Scalar α] {s : MemoryStore α} {symbol : Symbol} {date start stop : Date}

def onePrice (symbol : Symbol) (date : Date) : Requirements := ⟨[⟨symbol, date⟩], [], []⟩

def Fills (s : MemoryStore α) (symbol : Symbol) (date : Date) : Prop :=
  ∃ cache x, s.loader.load (onePrice symbol date) = .ok cache ∧ cache.price symbol date = .ok x

theorem fills_iff : s.Fills symbol date ↔ s.failure = none ∧
    ∃ d x, date.back gapDays ≤ d ∧ d ≤ date ∧ (s.series symbol).get? d = some x := by
  have hlisted : (onePrice symbol date).Lists (.price symbol date) := List.mem_singleton_self _
  have hwants : (onePrice symbol date).Wants symbol date date := .inl ⟨hlisted, rfl⟩
  rw [Fills, ← Series.exists_latestWithin_iff]
  have hprice : ∀ cache, s.loader.load (onePrice symbol date) = .ok cache → ∀ x,
      cache.price symbol date = .ok x ↔ (s.series symbol).latestWithin date = some x := by
    intro cache hload x
    obtain ⟨fetched, hl⟩ := Loader.loaded_of_load hload
    rw [hl.price_eq_ok_iff, and_iff_right hlisted,
      Loader.price?_eq_latestWithin s.keeps_loader hl.fetch_eq hlisted]
    rfl
  constructor
  · rintro ⟨cache, x, hload, hx⟩
    obtain ⟨fetched, hl⟩ := Loader.loaded_of_load hload
    obtain ⟨stored, _, hstored, _⟩ := (Loader.fetchFor_eq_ok_iff hwants).1 hl.fetch_eq
    have hs : s.failure = none := (s.exists_stored_iff hwants).1 ⟨stored, hstored⟩
    exact ⟨hs, x, (hprice cache hload x).1 hx⟩
  · rintro ⟨hs, x, hx⟩
    obtain ⟨cache, hload⟩ := s.exists_load_eq_ok hs (r := onePrice symbol date) rfl
    exact ⟨cache, x, hload, (hprice cache hload x).2 hx⟩

theorem not_fills_of_failure {reason : String} (h : s.failure = some reason) (symbol : Symbol)
    (date : Date) : ¬ s.Fills symbol date := by
  rw [fills_iff, h]
  exact fun hfills => nomatch hfills.1

theorem exists_fills_iff (h : start ≤ stop) :
    (∃ date, start ≤ date ∧ date ≤ stop ∧ s.Fills symbol date) ↔ s.failure = none ∧
      ∃ d x, start.back gapDays ≤ d ∧ d ≤ stop ∧ (s.series symbol).get? d = some x := by
  simp only [fills_iff]
  constructor
  · rintro ⟨date, hstart, hstop, hs, d, x, hback, hd, hx⟩
    obtain ⟨hlow, hhigh⟩ := (Date.exists_week_iff h).1 ⟨date, hstart, hstop, hback, hd⟩
    exact ⟨hs, d, x, hlow, hhigh, hx⟩
  · rintro ⟨hs, d, x, hlow, hhigh, hx⟩
    obtain ⟨date, hstart, hstop, hback, hd⟩ := (Date.exists_week_iff h).2 ⟨hlow, hhigh⟩
    exact ⟨date, hstart, hstop, hs, d, x, hback, hd, hx⟩

end MemoryStore

/-! ### Kept and skipped symbols -/

namespace Coverage

variable {symbols : List Symbol} {start stop : Date}

/-- The symbols of a list with a property are kept and the others skipped, each in their order. -/
structure Splits (P : Symbol → Prop) (symbols : List Symbol) (c : Coverage) : Prop where
  kept : ∀ symbol, symbol ∈ c.symbols ↔ symbol ∈ symbols ∧ P symbol
  skipped : ∀ symbol, symbol ∈ c.skipped ↔ symbol ∈ symbols ∧ ¬ P symbol
  kept_in_order : c.symbols.Sublist symbols
  skipped_in_order : c.skipped.Sublist symbols
  together : (c.symbols ++ c.skipped).Perm symbols

theorem splits_filter {P : Symbol → Prop} {p : Symbol → Bool}
    (h : ∀ symbol ∈ symbols, p symbol = true ↔ P symbol) :
    Splits P symbols ⟨symbols.filter p, symbols.filter (! p ·)⟩ where
  kept symbol := by
    rw [List.mem_filter]
    exact and_congr_right (h symbol)
  skipped symbol := by
    rw [List.mem_filter, Bool.not_eq_true', ← Bool.not_eq_true]
    exact and_congr_right fun hmem => not_congr (h symbol hmem)
  kept_in_order := List.filter_sublist
  skipped_in_order := List.filter_sublist
  together := List.filter_append_perm p symbols

theorem check_of_points {store : PriceStore α} {points : List (PricePoint α)}
    (h : store.points (symbols.map fun s => ⟨s, start.back gapDays, stop⟩) = .ok points) :
    check store symbols start stop =
      if (symbols.filter (isPriced points)).isEmpty then .error .noInputs
      else .ok ⟨symbols.filter (isPriced points), symbols.filter (! isPriced points ·)⟩ := by
  simp only [check, h, List.partition_eq_filter_filter]
  rfl

theorem isPriced_pointsIn_iff (s : MemoryStore α) {symbol : Symbol} (h : symbol ∈ symbols) :
    isPriced ((symbols.map fun s => ⟨s, start.back gapDays, stop⟩).flatMap s.pointsIn) symbol =
      true ↔ ∃ d x, start.back gapDays ≤ d ∧ d ≤ stop ∧ (s.series symbol).get? d = some x := by
  rw [isPriced, List.any_eq_true]
  constructor
  · rintro ⟨p, hp, hsymbol⟩
    obtain ⟨_, hrange, hp⟩ := List.mem_flatMap.1 hp
    obtain ⟨_, _, rfl⟩ := List.mem_map.1 hrange
    obtain ⟨_, hlow, hhigh, hx⟩ := s.mem_pointsIn.1 hp
    rw [eq_of_beq hsymbol] at hx
    exact ⟨p.date, p.price, hlow, hhigh, hx⟩
  · rintro ⟨d, x, hlow, hhigh, hx⟩
    refine ⟨⟨symbol, d, x⟩, List.mem_flatMap.2 ⟨_, List.mem_map_of_mem h, ?_⟩, beq_self_eq_true _⟩
    exact s.mem_pointsIn.2 ⟨rfl, hlow, hhigh, hx⟩

theorem check_of_failure {s : MemoryStore α} {reason : String} (h : s.failure = some reason) :
    check s.priceStore symbols start stop = .error (.store (.failure reason)) := by
  have hpoints : ∀ ranges, s.priceStore.points ranges = .error (.failure reason) := by
    intro ranges
    simp only [MemoryStore.priceStore, MemoryStore.guarded, h]
  rw [check, hpoints]
  rfl

variable [Scalar α]

theorem check_of_failure_eq_none {s : MemoryStore α} (hs : s.failure = none)
    (symbols : List Symbol) (h : start ≤ stop) :
    ∃ p : Symbol → Bool,
      (∀ symbol ∈ symbols, p symbol = true ↔
        ∃ date, start ≤ date ∧ date ≤ stop ∧ s.Fills symbol date) ∧
      check s.priceStore symbols start stop =
        if (symbols.filter p).isEmpty then .error .noInputs
        else .ok ⟨symbols.filter p, symbols.filter (! p ·)⟩ := by
  refine ⟨_, fun symbol hmem => ?_, check_of_points (MemoryStore.guarded_of_failure hs _)⟩
  rw [MemoryStore.exists_fills_iff h, and_iff_right hs]
  exact isPriced_pointsIn_iff s hmem

/-- **The symbols kept are those that are filled in** on a date of the stretch.  Where there is no
such symbol there are no inputs, in a store that has not been told to fail; one that has been
prices no symbol and gives its reason, and nothing else goes wrong. -/
theorem check_fills (s : MemoryStore α) (symbols : List Symbol) {start stop : Date}
    (h : start ≤ stop) :
    (∀ c, check s.priceStore symbols start stop = .ok c →
      c.Splits (fun symbol => ∃ date, start ≤ date ∧ date ≤ stop ∧ s.Fills symbol date) symbols) ∧
    (check s.priceStore symbols start stop = .error .noInputs ↔ s.failure = none ∧
      ∀ symbol ∈ symbols, ∀ date, start ≤ date → date ≤ stop → ¬ s.Fills symbol date) ∧
    (∀ reason, s.failure = some reason → (∀ symbol date, ¬ s.Fills symbol date) ∧
      check s.priceStore symbols start stop = .error (.store (.failure reason))) ∧
    ∀ e, check s.priceStore symbols start stop = .error e →
      e = .noInputs ∨ ∃ reason, s.failure = some reason ∧ e = .store (.failure reason) := by
  cases hs : s.failure with
  | some reason =>
    rw [check_of_failure hs]
    refine ⟨nofun, ⟨nofun, nofun⟩, ?_, ?_⟩
    · rintro _ ⟨⟩
      exact ⟨MemoryStore.not_fills_of_failure hs, rfl⟩
    · rintro _ ⟨⟩
      exact .inr ⟨reason, rfl, rfl⟩
  | none =>
    obtain ⟨p, hp, hcheck⟩ := check_of_failure_eq_none hs symbols h
    rw [hcheck]
    have hempty : symbols.filter p = [] ↔
        ∀ symbol ∈ symbols, ∀ date, start ≤ date → date ≤ stop → ¬ s.Fills symbol date := by
      rw [List.filter_eq_nil_iff]
      refine forall₂_congr fun symbol hmem => ?_
      rw [hp symbol hmem]
      simp only [not_exists, not_and]
    by_cases hnone : symbols.filter p = []
    · rw [if_pos (List.isEmpty_iff.2 hnone)]
      refine ⟨nofun, iff_of_true rfl ⟨rfl, hempty.1 hnone⟩, nofun, ?_⟩
      rintro _ ⟨⟩
      exact .inl rfl
    · rw [if_neg (mt List.isEmpty_iff.1 hnone)]
      refine ⟨?_, iff_of_false nofun fun hall => hnone (hempty.2 hall.2), nofun,
        fun e he => nomatch he⟩
      rintro _ ⟨⟩
      exact splits_filter hp

open Scoring (january shares)

/-- One share has its last price a week before the stretch and is kept; the other has it a day
earlier and is skipped. -/
theorem check_fills_weekBefore : january 10 ≤ january 12 ∧
    ∃ c, check (shares 1 [("GOOG", 2, (7 : Float)), ("AAPL", 3, 5)]).priceStore ["GOOG", "AAPL"]
        (january 10) (january 12) = .ok c ∧ c = ⟨["AAPL"], ["GOOG"]⟩ ∧
      (∃ date, january 10 ≤ date ∧ date ≤ january 12 ∧
        (shares 1 [("GOOG", 2, (7 : Float)), ("AAPL", 3, 5)]).Fills "AAPL" date) ∧
      ¬ ∃ date, january 10 ≤ date ∧ date ≤ january 12 ∧
        (shares 1 [("GOOG", 2, (7 : Float)), ("AAPL", 3, 5)]).Fills "GOOG" date := by
  have hle : january 10 ≤ january 12 := by decide
  have hrun : (check (shares 1 [("GOOG", 2, (7 : Float)), ("AAPL", 3, 5)]).priceStore
      ["GOOG", "AAPL"] (january 10) (january 12)).toOption.any
        (fun c => decide (c = ⟨["AAPL"], ["GOOG"]⟩)) = true := by
    decide +kernel
  obtain ⟨c, hc, heq⟩ := Except.exists_of_toOption_any hrun
  have hsplits := (check_fills (shares 1 [("GOOG", 2, (7 : Float)), ("AAPL", 3, 5)])
    ["GOOG", "AAPL"] hle).1 c hc
  obtain rfl := of_decide_eq_true heq
  exact ⟨hle, _, hc, rfl, ((hsplits.kept "AAPL").1 List.mem_cons_self).2,
    ((hsplits.skipped "GOOG").1 List.mem_cons_self).2⟩

/-- A store that has been told to fail prices no symbol, and yet there is more to say than that
there are no inputs. -/
theorem check_ne_noInputs_toldToFail :
    ¬ (check ({ MemoryStore.empty 1 with failure := some "down" } : MemoryStore Float).priceStore
        ["AAPL"] (january 5) (january 10) = .error .noInputs ↔
      ∀ symbol ∈ ["AAPL"], ∀ date, january 5 ≤ date → date ≤ january 10 →
        ¬ ({ MemoryStore.empty 1 with failure := some "down" } : MemoryStore Float).Fills
          symbol date) := by
  rw [check_of_failure rfl]
  intro hiff
  have hnone := hiff.2 fun symbol _ date _ _ => MemoryStore.not_fills_of_failure rfl symbol date
  cases hnone

end Coverage

end FactorPortfolio
