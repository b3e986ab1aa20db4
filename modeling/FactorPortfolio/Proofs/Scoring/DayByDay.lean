import FactorPortfolio.Proofs.Scoring.Direct
import Mathlib.Tactic.Common

/-!
# Day by day

The jobs of a batch that fall on one day are one for each symbol, whichever other days the batch
has (`filter_jobs`).  Where no volatility is asked for, the same comes of them in every batch, so
that the result of a day does not tell with which other days it has been scored: `get?_score_eq`.
-/

namespace FactorPortfolio.Scoring

variable {α : Type} [Scalar α] {formula : Formula α} {days days' : List Date}
  {symbols : List Symbol} {date : Date}

theorem jobs_cons (d : Date) (days : List Date) (symbols : List Symbol) :
    jobs (d :: days) symbols = symbols.map (fun symbol => ⟨d, symbol⟩) ++ jobs days symbols := by
  simp [jobs]

/-- **The jobs of a day** are one for each symbol. -/
theorem filter_jobs (hdays : days.Nodup) (hdate : date ∈ days) (symbols : List Symbol) :
    (jobs days symbols).filter (fun job => job.date = date) =
      symbols.map fun symbol => ⟨date, symbol⟩ := by
  induction days with
  | nil => cases hdate
  | cons d days ih =>
    obtain ⟨hd, hdays⟩ := List.nodup_cons.1 hdays
    rw [jobs_cons, List.filter_append]
    by_cases heq : d = date
    · subst heq
      have hother : (jobs days symbols).filter (fun job => job.date = d) = [] := by
        rw [List.filter_eq_nil_iff]
        intro job hjob hsame
        exact hd (of_decide_eq_true hsame ▸ (mem_jobs.1 hjob).1)
      rw [hother, List.append_nil, List.filter_eq_self]
      intro job hjob
      obtain ⟨symbol, _, rfl⟩ := List.mem_map.1 hjob
      exact decide_eq_true rfl
    · have hother : (symbols.map fun symbol => (⟨d, symbol⟩ : Job)).filter
          (fun job => job.date = date) = [] := by
        rw [List.filter_eq_nil_iff]
        intro job hjob hsame
        obtain ⟨symbol, _, rfl⟩ := List.mem_map.1 hjob
        exact heq (of_decide_eq_true hsame)
      rw [hother, List.nil_append]
      exact ih hdays ((List.mem_cons.1 hdate).resolve_left (Ne.symm heq))

theorem ofDay_outcomes (hdays : days.Nodup) (hdate : date ∈ days) (source : MetricSource α) :
    ofDay date (outcomes source formula (jobs days symbols)) =
      symbols.map fun symbol => (⟨date, symbol⟩, (formula.evaluate symbol date).run source) := by
  have hjobs := filter_jobs hdays hdate symbols
  rw [ofDay, outcomes, List.filter_map]
  show ((jobs days symbols).filter fun job => job.date = date).map _ = _
  rw [hjobs, List.map_map]
  rfl

/-- **A day is scored alike with any other days**, if the formula asks for no volatility. -/
theorem get?_score_eq {l : Loader α} {m : Market α} (hl : l.Keeps m)
    (hstdev : formula.tree.isWithoutStdev = true) {cancelled : Bool} {out out' : DailyScores α}
    (h : score l formula days symbols cancelled = .ok out)
    (h' : score l formula days' symbols cancelled = .ok out') (hdays : days.Nodup)
    (hdays' : days'.Nodup) (hdate : date ∈ days) (hdate' : date ∈ days') :
    out.get? date = out'.get? date := by
  have hrun : ∀ symbol,
      (formula.evaluate symbol date).run (marketSource m formula (jobs days symbols)) =
        (formula.evaluate symbol date).run (marketSource m formula (jobs days' symbols)) :=
    fun symbol => run_eq_of_direct (m.direct_source _) (m.direct_source _) hstdev symbol date
  have hday : ofDay date (outcomes (marketSource m formula (jobs days symbols)) formula
        (jobs days symbols)) =
      ofDay date (outcomes (marketSource m formula (jobs days' symbols)) formula
        (jobs days' symbols)) := by
    rw [ofDay_outcomes hdays hdate, ofDay_outcomes hdays' hdate']
    exact List.map_congr_left fun symbol _ => by rw [hrun symbol]
  rw [get?_score_of_mem hl h hdate, get?_score_of_mem hl h' hdate', resultOf, scoresOf, failuresOf,
    hday, resultOf, scoresOf, failuresOf]

end FactorPortfolio.Scoring
