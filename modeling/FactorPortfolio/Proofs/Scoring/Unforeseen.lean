import FactorPortfolio.Formula.Parser
import FactorPortfolio.Proofs.Scoring.Batch
import Mathlib.Tactic.Common

/-!
# When a batch looks up what it has not foreseen

The dry run answers every question with a stand-in, and where an answer is made into a date, the
real run asks for another date.  Nothing else can go wrong: `unforeseen_lookups` says that a batch
fails for an unforeseen look-up exactly if one of its jobs asks for what is not listed, and that
this is never so for a formula in which no market data is read inside of a move of a date.

`unforeseen_of_price_as_days` is a batch of one job that fails: the price of a share on the day
that lies as many days back as the share costs.
-/

namespace FactorPortfolio.Scoring

variable {α : Type} [Scalar α]

/-- **A batch fails for an unforeseen look-up exactly if a job asks for what is not listed.**  A
formula with fixed dates lists all that it asks, whatever the answers are, so it never does. -/
theorem unforeseen_lookups (l : Loader α) (formula : Formula α) (days : List Date)
    (symbols : List Symbol) (cancelled : Bool) :
    ((∃ fault, score l formula days symbols cancelled = .error (.internal fault)) ↔
      cancelled = false ∧ ∃ cache,
        l.load (formula.requirements (jobs days symbols)) = .ok cache ∧
        ∃ job ∈ jobs days symbols,
          ∃ q ∈ (formula.evaluate job.symbol job.date).asked cache.source,
            ¬ (formula.requirements (jobs days symbols)).Lists q) ∧
    (formula.tree.hasFixedDates = true →
      (∀ fault, score l formula days symbols cancelled ≠ .error (.internal fault)) ∧
      ∀ (source : MetricSource α), ∀ job ∈ jobs days symbols,
        ∀ q ∈ (formula.evaluate job.symbol job.date).asked source,
          (formula.requirements (jobs days symbols)).Lists q) := by
  constructor
  · exact score_eq_internal_iff
  · intro hfixed
    constructor
    · intro fault h
      obtain ⟨_, cache, _, job, hjob, q, hq, hlists⟩ := score_eq_internal_iff.1 ⟨fault, h⟩
      exact hlists (Formula.lists_of_asked hfixed hjob hq)
    · intro source job hjob q hq
      exact Formula.lists_of_asked hfixed hjob hq

def isInternalFailure {β : Type} : Except (RunError α) β → Bool
  | .error (.internal _) => true
  | _ => false

omit [Scalar α] in
theorem exists_of_isInternalFailure {β : Type} {x : Except (RunError α) β}
    (h : isInternalFailure x = true) : ∃ fault, x = .error (.internal fault) := by
  cases x with
  | ok b => cases h
  | error e => cases e <;> first | exact ⟨_, rfl⟩ | cases h

/-- The dry run asks for the price of the day before; the share costs 2, so the price of two days
before is asked for, which is on file and yet an unforeseen look-up. -/
theorem unforeseen_of_price_as_days : ∃ formula : Formula Float,
    Formula.parse "price(nDaysAgo(price(currentDate)))" = .ok formula ∧
    ∃ fault, score (share [(8, 5), (10, 2)]).loader formula [january 10] ["AAPL"] false =
      .error (.internal fault) := by
  have hfails : (Formula.parse "price(nDaysAgo(price(currentDate)))").toOption.any (fun formula =>
      isInternalFailure (score (share [(8, 5), (10, 2)]).loader formula [january 10] ["AAPL"]
        false)) = true := by
    decide +kernel
  obtain ⟨formula, hparse, hfails⟩ := Except.exists_of_toOption_any hfails
  exact ⟨formula, hparse, exists_of_isInternalFailure hfails⟩

end FactorPortfolio.Scoring
