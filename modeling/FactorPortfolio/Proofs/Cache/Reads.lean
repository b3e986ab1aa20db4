import FactorPortfolio.Proofs.Cache.Loaded
import Mathlib.Tactic.Common

/-!
# What a load reads

Of the fetched prices of a symbol a load reads those in the weeks of its listed prices and, if a
volatility is listed, those inside its window.  `fill_congr` says that nothing else counts, but for
what a window that runs backwards comes to.
-/

namespace FactorPortfolio

variable {α : Type}

/-- A price of a symbol on a date is read, or the window of the symbol cannot be cut out. -/
def Requirements.Reads (r : Requirements) (symbol : Symbol) (date : Date) : Prop :=
  (∃ d, r.Lists (.price symbol d) ∧ d.back gapDays ≤ date ∧ date ≤ d) ∨
    r.Measures symbol ∧ (r.RunsBackwards symbol ∨
      (∃ low high, r.Wants symbol low high ∧ low ≤ date) ∧
        ∃ low high, r.Wants symbol low high ∧ date ≤ high)

/-- Fetched prices are alike as far as they are read. -/
structure Fetched.ReadAlike (r : Requirements) (f f' : Fetched α) : Prop where
  seriesOf : ∀ symbol date, r.Reads symbol date →
    Table.get? (f.seriesOf symbol) date = Table.get? (f'.seriesOf symbol) date
  series : ∀ symbol, r.Measures symbol → r.RunsBackwards symbol →
    (f.series.contains symbol = true ↔ f'.series.contains symbol = true)

variable {r : Requirements} {f f' : Fetched α}

namespace Fetched.ReadAlike

theorem refl (r : Requirements) (f : Fetched α) : ReadAlike r f f :=
  ⟨fun _ _ _ => rfl, fun _ _ _ => .rfl⟩

theorem price? (h : ReadAlike r f f') {p : PointRequest} (hlisted : p ∈ r.prices) :
    f.price? p = f'.price? p := by
  rw [Fetched.price?_eq, Fetched.price?_eq, Series.latestWithin, Series.latestWithin,
    Series.between_congr fun d hlow hhigh =>
      h.seriesOf p.symbol d (.inl ⟨p.date, hlisted, hlow, hhigh⟩)]

theorem stdev? [Scalar α] (h : ReadAlike r f f') {p : WindowRequest} (hlisted : p ∈ r.stdevs) :
    f.stdev? r.symbolWindows p = f'.stdev? r.symbolWindows p := by
  have hmeasures : r.Measures p.symbol := ⟨p.start, p.stop, hlisted⟩
  obtain ⟨w, hw, _⟩ := Requirements.covers_stdev (r := r) hlisted
  have hbetween : Table.between (f.seriesOf p.symbol) w.1 w.2 =
      Table.between (f'.seriesOf p.symbol) w.1 w.2 :=
    Series.between_congr fun d hlow hhigh => h.seriesOf p.symbol d (.inr ⟨hmeasures,
      .inr ⟨(Requirements.window_le_iff hw).1 hlow, (Requirements.le_window_iff hw).1 hhigh⟩⟩)
  have hreversed : (f.series.contains p.symbol = true ∧ w.2 < w.1) ↔
      (f'.series.contains p.symbol = true ∧ w.2 < w.1) :=
    and_congr_left fun hlt => h.series p.symbol hmeasures ((Requirements.window_lt_iff hw).1 hlt)
  rw [Fetched.stdev?_eq f p hw, Fetched.stdev?_eq f' p hw]
  simp only [hbetween, hreversed]

end Fetched.ReadAlike

namespace Loader

theorem record_congr {l l' : Loader α} (h : l.fundamentals = l'.fundamentals) :
    l.record = l'.record := by
  funext p
  rw [record, record, h]

variable [Scalar α]

/-- **What is not read makes no difference** to the answers of a cache. -/
theorem fill_congr {l l' : Loader α} (hfundamentals : l.fundamentals = l'.fundamentals)
    (h : Fetched.ReadAlike r f f') :
    (l.fill r f).map Cache.source = (l'.fill r f').map Cache.source := by
  have hprices : tabulate f.price? r.prices = tabulate f'.price? r.prices :=
    congrArg Table.ofList (List.filterMap_congr fun p hp => by rw [h.price? hp])
  have hstdevs : (r.stdevs.mapM fun w => return (w, ← f.stdev? r.symbolWindows w)) =
      r.stdevs.mapM fun w => return (w, ← f'.stdev? r.symbolWindows w) :=
    Except.mapM_congr fun w hw => by rw [h.stdev? hw]
  rw [fill, fill, hstdevs, hprices, record_congr hfundamentals]
  cases r.stdevs.mapM fun w => return (w, ← f'.stdev? r.symbolWindows w) with
  | error e => rfl
  | ok stdevs =>
    cases r.fundamentals.mapM fun p => return (p, ← l'.record p) with
    | error e => rfl
    | ok records => rfl

end Loader

end FactorPortfolio
