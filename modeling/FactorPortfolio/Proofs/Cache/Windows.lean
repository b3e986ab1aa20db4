import FactorPortfolio.Cache.Load
import FactorPortfolio.Proofs.Calendar.Order
import FactorPortfolio.Proofs.Formula.DryRun
import FactorPortfolio.Proofs.Table
import Mathlib.Tactic.Common

/-!
# The window of a symbol holds its requests

`symbolWindows` only ever widens the window of a symbol, so the request that widened it last and
all those before it stay inside: `covers_price` and `covers_stdev`.  It widens it no further than
to a request (`tight_symbolWindows`), so a window is known by what is requested.

* `window_lt_iff`: a window runs backwards if and only if all the requests of its symbol end
  before any of them starts (`RunsBackwards`).
* `reaches_iff`, `spans_iff`: which dates are fetched for a symbol, and for all symbols together.
-/

namespace FactorPortfolio.Requirements

/-- The window of a symbol reaches from `low` or earlier to `high` or later. -/
def Covers (windows : Table Symbol DateWindow) (symbol : Symbol) (low high : Date) : Prop :=
  ∃ w, windows.get? symbol = some w ∧ w.1 ≤ low ∧ high ≤ w.2

variable {windows : Table Symbol DateWindow} {symbol : Symbol} {low high : Date}

theorem covers_widen_self : Covers (widen windows symbol low high) symbol low high := by
  rw [widen]
  split
  · exact ⟨_, Table.get?_insert_self _ _ _, Date.le_refl low, Date.le_refl high⟩
  · rename_i first last _
    exact ⟨_, Table.get?_insert_self _ _ _, Date.min_le_right first low,
      Date.le_max_right last high⟩

theorem Covers.widen (h : Covers windows symbol low high) (symbol' : Symbol) (low' high' : Date) :
    Covers (widen windows symbol' low' high') symbol low high := by
  obtain ⟨w, hw, hlow, hhigh⟩ := h
  by_cases hs : symbol = symbol'
  · subst hs
    obtain ⟨first, last⟩ := w
    refine ⟨(first.min low', last.max high'), ?_, Date.le_trans (Date.min_le_left _ _) hlow,
      Date.le_trans hhigh (Date.le_max_left _ _)⟩
    simp [Requirements.widen, hw]
  · refine ⟨w, ?_, hlow, hhigh⟩
    rw [Requirements.widen]
    split <;> rw [Table.get?_insert_of_ne _ hs, hw]

section

variable {β : Type} (symbolOf : β → Symbol) (lowOf highOf : β → Date)

abbrev widenAll (l : List β) (windows : Table Symbol DateWindow) : Table Symbol DateWindow :=
  l.foldl (fun windows r => Requirements.widen windows (symbolOf r) (lowOf r) (highOf r)) windows

theorem Covers.widenAll (h : Covers windows symbol low high) (l : List β) :
    Covers (widenAll symbolOf lowOf highOf l windows) symbol low high := by
  induction l generalizing windows with
  | nil => exact h
  | cons r l ih => exact ih (h.widen _ _ _)

theorem covers_widenAll {l : List β} {r : β} (hr : r ∈ l) (windows : Table Symbol DateWindow) :
    Covers (Requirements.widenAll symbolOf lowOf highOf l windows) (symbolOf r) (lowOf r)
      (highOf r) := by
  induction l generalizing windows with
  | nil => cases hr
  | cons r' l ih =>
    rcases List.mem_cons.1 hr with rfl | hr
    · exact covers_widen_self.widenAll symbolOf lowOf highOf l
    · exact ih hr _

end

variable {r : Requirements}

theorem covers_price {date : Date} (h : r.Lists (.price symbol date)) :
    Covers r.symbolWindows symbol date date := by
  have hprice := covers_widenAll PointRequest.symbol PointRequest.date PointRequest.date h ∅
  exact hprice.widenAll WindowRequest.symbol WindowRequest.start WindowRequest.stop r.stdevs

theorem covers_stdev {start stop : Date} (h : r.Lists (.stdev symbol start stop)) :
    Covers r.symbolWindows symbol start stop :=
  covers_widenAll WindowRequest.symbol WindowRequest.start WindowRequest.stop h _

/-! ### Windows are no wider than the requests -/

/-- The dates from `low` to `high` are requested for a symbol. -/
def Wants (r : Requirements) (symbol : Symbol) (low high : Date) : Prop :=
  (r.Lists (.price symbol low) ∧ high = low) ∨ r.Lists (.stdev symbol low high)

theorem covers_of_wants (h : r.Wants symbol low high) : Covers r.symbolWindows symbol low high := by
  rcases h with ⟨hprice, rfl⟩ | hstdev
  · exact covers_price hprice
  · exact covers_stdev hstdev

def Measures (r : Requirements) (symbol : Symbol) : Prop :=
  ∃ start stop, r.Lists (.stdev symbol start stop)

theorem Measures.wants (h : r.Measures symbol) : ∃ low high, r.Wants symbol low high :=
  h.imp fun _ => Exists.imp fun _ => Or.inr

/-- Every end of a window is the end of something wanted. -/
def Tight (wanted : Symbol → Date → Date → Prop) (windows : Table Symbol DateWindow) : Prop :=
  ∀ symbol w, windows.get? symbol = some w →
    (∃ high, wanted symbol w.1 high) ∧ ∃ low, wanted symbol low w.2

section

variable {wanted : Symbol → Date → Date → Prop}

theorem Tight.widen (ht : Tight wanted windows) (h : wanted symbol low high) :
    Tight wanted (Requirements.widen windows symbol low high) := by
  intro symbol' w hw
  rw [Requirements.widen] at hw
  by_cases hs : symbol' = symbol
  · subst hs
    split at hw
    · rw [Table.get?_insert_self] at hw
      cases hw
      exact ⟨⟨high, h⟩, low, h⟩
    · rename_i first last hold
      obtain ⟨hfirst, hlast⟩ := ht _ _ hold
      rw [Table.get?_insert_self] at hw
      cases hw
      constructor
      · rcases Date.min_eq_or first low with heq | heq
        · simpa only [heq] using hfirst
        · simpa only [heq] using ⟨high, h⟩
      · rcases Date.max_eq_or last high with heq | heq
        · simpa only [heq] using hlast
        · simpa only [heq] using ⟨low, h⟩
  · refine ht symbol' w ?_
    split at hw <;> rwa [Table.get?_insert_of_ne _ hs] at hw

theorem Tight.widenAll {β : Type} {symbolOf : β → Symbol} {lowOf highOf : β → Date} {l : List β}
    (ht : Tight wanted windows) (h : ∀ r ∈ l, wanted (symbolOf r) (lowOf r) (highOf r)) :
    Tight wanted (Requirements.widenAll symbolOf lowOf highOf l windows) := by
  induction l generalizing windows with
  | nil => exact ht
  | cons r l ih =>
    obtain ⟨hr, hl⟩ := List.forall_mem_cons.1 h
    exact ih (ht.widen hr) hl

end

/-- **The ends of a window are ends of requests of its symbol.** -/
theorem tight_symbolWindows (r : Requirements) : Tight r.Wants r.symbolWindows := by
  have hempty : Tight r.Wants (∅ : Table Symbol DateWindow) := by
    intro symbol w hw
    cases hw
  have hprices : ∀ p ∈ r.prices, r.Wants p.symbol p.date p.date := fun p hp => .inl ⟨hp, rfl⟩
  have hstdevs : ∀ w ∈ r.stdevs, r.Wants w.symbol w.start w.stop := fun w hw => .inr hw
  exact (hempty.widenAll hprices).widenAll hstdevs

/-- Dates are requested for a symbol, and all its requests end before any of them starts. -/
def RunsBackwards (r : Requirements) (symbol : Symbol) : Prop :=
  (∃ low high, r.Wants symbol low high) ∧
    ∀ low high low' high', r.Wants symbol low high → r.Wants symbol low' high' → high' < low

/-- The date is one of those that are fetched for a symbol. -/
def Reaches (r : Requirements) (symbol : Symbol) (date : Date) : Prop :=
  (∃ low high, r.Wants symbol low high ∧ low.back gapDays ≤ date) ∧
    ∃ low high, r.Wants symbol low high ∧ date ≤ high

/-- The date is one of those whose trading days are fetched. -/
def Spans (r : Requirements) (date : Date) : Prop :=
  (∃ symbol low high, r.Wants symbol low high ∧ low.back gapDays ≤ date) ∧
    ∃ symbol low high, r.Wants symbol low high ∧ date ≤ high

section

variable {w : DateWindow} {date : Date}

theorem exists_window_iff : (∃ w, r.symbolWindows.get? symbol = some w) ↔
    ∃ low high, r.Wants symbol low high := by
  constructor
  · rintro ⟨w, hw⟩
    obtain ⟨high, h⟩ := (r.tight_symbolWindows symbol w hw).1
    exact ⟨w.1, high, h⟩
  · rintro ⟨low, high, h⟩
    obtain ⟨w, hw, _⟩ := covers_of_wants h
    exact ⟨w, hw⟩

theorem Wants.within (h : r.Wants symbol low high) (hw : r.symbolWindows.get? symbol = some w) :
    w.1 ≤ low ∧ high ≤ w.2 := by
  obtain ⟨w', hw', hle⟩ := covers_of_wants h
  rw [hw] at hw'
  cases hw'
  exact hle

/-- **A window runs backwards if and only if its symbol's requests do.** -/
theorem window_lt_iff (hw : r.symbolWindows.get? symbol = some w) :
    w.2 < w.1 ↔ r.RunsBackwards symbol := by
  obtain ⟨⟨high, hfirst⟩, low, hlast⟩ := r.tight_symbolWindows symbol w hw
  constructor
  · intro hlt
    refine ⟨⟨w.1, high, hfirst⟩, fun low' high' low'' high'' h h' => ?_⟩
    have hstart := (h.within hw).1
    have hend := (h'.within hw).2
    rw [Date.lt_def] at hlt ⊢
    rw [Date.le_def] at hstart hend
    omega
  · intro hback
    exact hback.2 _ _ _ _ hfirst hlast

theorem window_le_iff (hw : r.symbolWindows.get? symbol = some w) :
    w.1 ≤ date ↔ ∃ low high, r.Wants symbol low high ∧ low ≤ date := by
  constructor
  · intro hle
    obtain ⟨high, h⟩ := (r.tight_symbolWindows symbol w hw).1
    exact ⟨w.1, high, h, hle⟩
  · rintro ⟨low, high, h, hle⟩
    exact Date.le_trans (h.within hw).1 hle

theorem le_window_iff (hw : r.symbolWindows.get? symbol = some w) :
    date ≤ w.2 ↔ ∃ low high, r.Wants symbol low high ∧ date ≤ high := by
  constructor
  · intro hle
    obtain ⟨low, h⟩ := (r.tight_symbolWindows symbol w hw).2
    exact ⟨low, w.2, h, hle⟩
  · rintro ⟨low, high, h, hle⟩
    exact Date.le_trans hle (h.within hw).2

theorem window_back_le_iff (hw : r.symbolWindows.get? symbol = some w) :
    w.1.back gapDays ≤ date ↔ ∃ low high, r.Wants symbol low high ∧ low.back gapDays ≤ date := by
  constructor
  · intro hle
    obtain ⟨high, h⟩ := (r.tight_symbolWindows symbol w hw).1
    exact ⟨w.1, high, h, hle⟩
  · rintro ⟨low, high, h, hle⟩
    exact Date.le_trans (Date.back_le_back (h.within hw).1 (by decide)) hle

theorem reaches_iff (hw : r.symbolWindows.get? symbol = some w) :
    w.1.back gapDays ≤ date ∧ date ≤ w.2 ↔ r.Reaches symbol date := by
  rw [window_back_le_iff hw, le_window_iff hw, Reaches]

end

/-! ### All windows together -/

/-- The overall window starts where one of the windows starts and ends where one ends, and holds
them all. -/
theorem overallWindow_spec {ws : List DateWindow} {overall : DateWindow}
    (h : overallWindow ws = some overall) : (∃ w ∈ ws, w.1 = overall.1) ∧
      (∃ w ∈ ws, w.2 = overall.2) ∧ ∀ w ∈ ws, overall.1 ≤ w.1 ∧ w.2 ≤ overall.2 := by
  cases ws with
  | nil => cases h
  | cons w rest =>
    obtain rfl := Option.some.inj h
    clear h
    induction rest generalizing w with
    | nil => simp
    | cons v rest ih =>
      obtain ⟨⟨f, hf, hfirst⟩, ⟨e, he, hlast⟩, hall⟩ := ih (w.1.min v.1, w.2.max v.2)
      obtain ⟨hleft, hright⟩ := hall _ List.mem_cons_self
      rw [List.foldl_cons]
      refine ⟨?_, ?_, ?_⟩
      · rcases List.mem_cons.1 hf with rfl | hf
        · rcases Date.min_eq_or w.1 v.1 with heq | heq
          · exact ⟨w, by simp, heq.symm.trans hfirst⟩
          · exact ⟨v, by simp, heq.symm.trans hfirst⟩
        · exact ⟨f, by simp [hf], hfirst⟩
      · rcases List.mem_cons.1 he with rfl | he
        · rcases Date.max_eq_or w.2 v.2 with heq | heq
          · exact ⟨w, by simp, heq.symm.trans hlast⟩
          · exact ⟨v, by simp, heq.symm.trans hlast⟩
        · exact ⟨e, by simp [he], hlast⟩
      · intro u hu
        rcases List.mem_cons.1 hu with rfl | hu
        · exact ⟨Date.le_trans hleft (Date.min_le_left _ _),
            Date.le_trans (Date.le_max_left _ _) hright⟩
        rcases List.mem_cons.1 hu with rfl | hu
        · exact ⟨Date.le_trans hleft (Date.min_le_right _ _),
            Date.le_trans (Date.le_max_right _ _) hright⟩
        · exact hall u (List.mem_cons_of_mem _ hu)

theorem mem_values_symbolWindows {w : DateWindow} :
    w ∈ r.symbolWindows.values ↔ ∃ symbol, r.symbolWindows.get? symbol = some w := by
  simp only [Table.values, List.mem_map, Table.get?_eq_some_iff]
  constructor
  · rintro ⟨e, he, rfl⟩
    exact ⟨e.1, he⟩
  · rintro ⟨symbol, h⟩
    exact ⟨(symbol, w), h, rfl⟩

/-- **The trading days fetched are those from a week before the first request to the last.** -/
theorem spans_iff {overall : DateWindow} {date : Date}
    (h : overallWindow r.symbolWindows.values = some overall) :
    overall.1.back gapDays ≤ date ∧ date ≤ overall.2 ↔ r.Spans date := by
  obtain ⟨⟨f, hf, hfirst⟩, ⟨e, he, hlast⟩, hall⟩ := overallWindow_spec h
  obtain ⟨symbol, hwf⟩ := mem_values_symbolWindows.1 hf
  obtain ⟨symbol', hwe⟩ := mem_values_symbolWindows.1 he
  constructor
  · rintro ⟨hlow, hhigh⟩
    rw [← hfirst, window_back_le_iff hwf] at hlow
    rw [← hlast, le_window_iff hwe] at hhigh
    exact ⟨⟨symbol, hlow⟩, symbol', hhigh⟩
  · rintro ⟨⟨s, low, high, hwants, hlow⟩, s', low', high', hwants', hhigh⟩
    obtain ⟨w, hw, hstart, _⟩ := covers_of_wants hwants
    obtain ⟨w', hw', _, hstop⟩ := covers_of_wants hwants'
    have hfirst := (hall w (mem_values_symbolWindows.2 ⟨s, hw⟩)).1
    have hlast := (hall w' (mem_values_symbolWindows.2 ⟨s', hw'⟩)).2
    exact ⟨Date.le_trans (Date.back_le_back (Date.le_trans hfirst hstart) (by decide)) hlow,
      Date.le_trans hhigh (Date.le_trans hstop hlast)⟩

end FactorPortfolio.Requirements
