import FactorPortfolio.Proofs.Scoring.Batch
import Mathlib.Tactic.Common

/-!
# Scoring is direct evaluation

For a formula without volatilities whose dates are fixed, the way from the dry run over the cache
to the collected scores comes down to evaluating the formula for every symbol on every day against
what is stored: `score_eq_direct`.
-/

namespace FactorPortfolio

variable {α : Type}

namespace Market

/-- A source answers straight from what is stored: with the latest price of the last seven days,
and with the latest record.  Of volatilities nothing is said. -/
structure Direct (m : Market α) (source : MetricSource α) : Prop where
  price : ∀ symbol date x, source.price symbol date = .ok x ↔
    (m.prices symbol).Latest (fun d => date.back 7 ≤ d ∧ d ≤ date) x
  missing : ∀ symbol date e, source.price symbol date = .error e →
    e = .cacheMiss (.price symbol date true)
  record : ∀ symbol date, ∃ r, source.fundamentals symbol date = .ok r ∧
    ∀ x, r = some x ↔ Series.Latest (m.records symbol) (· ≤ date) x

theorem direct_source (m : Market α) (volatility : Symbol → Date → Date → Option α) :
    m.Direct (m.source volatility) where
  price symbol date x := by
    refine Iff.trans ?_ (m.prices symbol).latestWithin_eq_some_iff
    simp only [source]
    cases (m.prices symbol).latestWithin date <;> simp
  missing symbol date e h := by
    have hanswer : (m.source volatility).answer (.price symbol date) = .error e := h
    rcases answer_eq_error_iff.1 hanswer with ⟨_, _, hq, _, rfl⟩ | ⟨_, _, _, hq, _⟩
    · cases hq
      rfl
    · cases hq
  record symbol date := ⟨m.record symbol date, rfl, fun x => record_eq_some_iff⟩

/-- There is but one such source, volatilities apart. -/
theorem Direct.agree {m : Market α} {s s' : MetricSource α} (h : m.Direct s) (h' : m.Direct s')
    {q : Question} (hq : ¬ q.IsStdev) : s.Agree s' q := by
  cases q with
  | price symbol date =>
    show s.price symbol date = s'.price symbol date
    cases hx : s.price symbol date with
    | ok x => exact ((h'.price symbol date x).2 ((h.price symbol date x).1 hx)).symm
    | error e =>
      cases hx' : s'.price symbol date with
      | ok x =>
        rw [(h.price symbol date x).2 ((h'.price symbol date x).1 hx')] at hx
        cases hx
      | error e' => rw [h.missing symbol date e hx, h'.missing symbol date e' hx']
  | stdev symbol start stop => exact absurd trivial hq
  | fundamentals symbol date =>
    obtain ⟨r, hr, hspec⟩ := h.record symbol date
    obtain ⟨r', hr', hspec'⟩ := h'.record symbol date
    show s.fundamentals symbol date = s'.fundamentals symbol date
    rw [hr, hr', Option.ext fun x => (hspec x).trans (hspec' x).symm]

end Market

variable [Scalar α]

namespace MemoryStore

variable {s : MemoryStore α}

theorem exists_load_eq_ok (hs : s.failure = none) {r : Requirements} (hr : r.stdevs = []) :
    ∃ cache, s.loader.load r = .ok cache := by
  have hguarded : ∀ {β : Type} (answer : β),
      (liftStore (s.guarded answer) : Except (RunError α) β) = .ok answer := by
    intro β answer
    rw [guarded_of_failure hs]
    rfl
  obtain ⟨fetched, hfetched⟩ : ∃ fetched, s.loader.fetchFor r = .ok fetched := by
    rw [Loader.fetchFor]
    split
    · exact ⟨_, rfl⟩
    · rw [Loader.fetch]
      exact ⟨_, Except.bind_eq_ok_iff.2 ⟨_, hguarded _, Except.bind_eq_ok_iff.2
        ⟨_, hguarded _, rfl⟩⟩⟩
  obtain ⟨records, hrecords⟩ := Except.exists_mapM_eq_ok
    (f := fun p => return (p, ← s.loader.record p)) (l := r.fundamentals) (fun p _ =>
      ⟨_, Except.bind_eq_ok_iff.2 ⟨_, hguarded _, rfl⟩⟩)
  rw [Loader.load_eq, hfetched]
  refine ⟨_, Except.bind_eq_ok_iff.2 ⟨fetched, rfl, Except.bind_eq_ok_iff.2 ⟨[], ?_,
    Except.bind_eq_ok_iff.2 ⟨records, hrecords, rfl⟩⟩⟩⟩
  rw [hr]
  rfl

end MemoryStore

namespace Scoring

theorem stdevs_requirements {formula : Formula α} (h : formula.tree.isWithoutStdev = true)
    (batch : List Job) : (formula.requirements batch).stdevs = [] := by
  apply List.eq_nil_iff_forall_not_mem.2
  intro w hw
  obtain ⟨job, _, hq⟩ := (formula.lists_requirements batch (.stdev w.symbol w.start w.stop)).1 hw
  exact (Expr.within_of_isWithoutStdev h).asked hq trivial

theorem run_eq_of_direct {m : Market α} {s s' : MetricSource α} (h : m.Direct s)
    (h' : m.Direct s') {formula : Formula α} (hstdev : formula.tree.isWithoutStdev = true)
    (symbol : Symbol) (date : Date) :
    (formula.evaluate symbol date).run s = (formula.evaluate symbol date).run s' :=
  Reading.run_congr _ fun _ hq => h.agree h'
    ((formula.within_evaluate symbol date (Expr.within_of_isWithoutStdev hstdev)).asked hq)

/-- **Scoring comes down to direct evaluation.**  On every day the scores are those of the symbols
that evaluate to a number, and the failures those of the symbols that do not, missing data apart. -/
theorem score_eq_direct {s : MemoryStore α} (hs : s.failure = none) {formula : Formula α}
    (hfixed : formula.tree.hasFixedDates = true) (hstdev : formula.tree.isWithoutStdev = true)
    {source : MetricSource α} (hsource : s.market.Direct source) {days : List Date}
    {symbols : List Symbol} (hdays : days ≠ []) (hsymbols : symbols ≠ [])
    (hdistinctDays : days.Nodup) (hdistinctSymbols : symbols.Nodup) :
    ∃ out, score s.loader formula days symbols false = .ok out ∧
      (∀ date, out.contains date = true ↔ date ∈ days) ∧
      ∀ date ∈ days, ∃ r, out.get? date = some r ∧
        (∀ symbol x, r.scores.get? symbol = some x ↔ symbol ∈ symbols ∧
          (formula.evaluate symbol date).run source = .ok x) ∧
        (∀ x, x ∈ r.errors ↔ x.date = date ∧ x.symbol ∈ symbols ∧
          (formula.evaluate x.symbol date).run source = .error x.error ∧
          x.error.isMissingData = false) ∧
        r.errors.Pairwise fun x y => compare x.symbol y.symbol = .lt := by
  have hjobs := jobs_ne_nil hdays hsymbols
  obtain ⟨cache, hload⟩ := s.exists_load_eq_ok hs (stdevs_requirements hstdev (jobs days symbols))
  obtain ⟨out, hout⟩ := exists_score_eq_ok hjobs hload fun job hjob q hq =>
    Formula.lists_of_asked hfixed hjob hq
  have hdirect := s.market.direct_source (batchVolatility s.market formula (jobs days symbols))
  have hrun := run_eq_of_direct hdirect hsource hstdev
  refine ⟨out, hout, ?_, ?_⟩
  · intro date
    rw [Table.contains, get?_score s.keeps_loader hout, ← mem_dates_of_score hout]
    split <;> simp_all
  intro date hdate
  refine ⟨_, get?_score_of_mem s.keeps_loader hout hdate, ?_, ?_, ?_⟩
  · intro symbol x
    rw [get?_scores_resultOf outcomes_functional, mem_outcomes, mem_jobs, ← hrun]
    simp [hdate, marketSource]
  · intro x
    rw [mem_errors_resultOf, mem_outcomes, mem_jobs, ← hrun]
    constructor
    · rintro ⟨rfl, ⟨⟨_, hsymbol⟩, hfails⟩, hmissing, _⟩
      exact ⟨rfl, hsymbol, hfails, hmissing⟩
    · rintro ⟨rfl, hsymbol, hfails, hmissing⟩
      exact ⟨rfl, ⟨⟨hdate, hsymbol⟩, hfails⟩, hmissing, run_market_ne_internal hfails⟩
  · refine errors_resultOf_strict (List.pairwise_map.2 ?_) date
    exact nodup_jobs hdistinctDays hdistinctSymbols

def latestPrice : Formula Float := ⟨"price(currentDate)", .call .price [.currentDate]⟩

/-- The price of two days ago is the score. -/
theorem score_latestPrice : ∃ out r,
    score (share [(8, 5)]).loader latestPrice [january 10] ["AAPL"] false = .ok out ∧
      out.get? (january 10) = some r ∧ r.scores.get? "AAPL" = some 5 := by
  have hdirect := (share [(8, 5)]).market.direct_source fun _ _ _ => none
  obtain ⟨out, hout, _, hday⟩ := score_eq_direct (show (share [(8, 5)]).failure = none from rfl)
    (show latestPrice.tree.hasFixedDates = true from rfl)
    (show latestPrice.tree.isWithoutStdev = true from rfl) hdirect
    (show [january 10] ≠ [] by decide) (show ["AAPL"] ≠ [] by decide) (by decide) (by decide)
  obtain ⟨r, hr, hscores, _⟩ := hday _ List.mem_cons_self
  have hrun : ((latestPrice.evaluate "AAPL" (january 10)).run
      ((share [(8, 5)]).market.source fun _ _ _ => none)).toOption.any (fun x => decide (x = 5)) =
        true := by
    decide +kernel
  obtain ⟨x, hx, hfive⟩ := Except.exists_of_toOption_any hrun
  exact ⟨out, r, hout, hr, (hscores "AAPL" 5).2
    ⟨List.mem_cons_self, by rw [hx, of_decide_eq_true hfive]⟩⟩

end Scoring

end FactorPortfolio
