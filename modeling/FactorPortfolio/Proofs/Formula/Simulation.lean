import FactorPortfolio.Proofs.Except
import FactorPortfolio.Proofs.Formula.DryRun
import FactorPortfolio.Scalar.Binary64
import Mathlib.Tactic.Common

/-!
# How a run ends is known from its dry run

A formula can fail in two ways: because of how it is written (`EvalError.isUsage`), or for want of
data.  A run that is foreseen comes to a value or wants data if its dry run comes to a value
(`Foreseen.run_cases`), and comes to no value if its dry run comes to none (`Foreseen.run_ne_ok`).
Together with what is listed for a dry run this is `dry_run_simulates`: of a formula with fixed
dates the dry run tells what a run reads and which faults it can still meet.
-/

namespace FactorPortfolio

/-- The fault lies in how a formula is written; no data makes up for it. -/
def EvalError.isUsage {α : Type} : EvalError α → Bool
  | arity _ _ | argumentType _ _ _ _ | invalidDate _ | lookAhead _ _ | operandType _ _
  | nonNumeric => true
  | nonFinite _ | missingData _ _ _ | cacheMiss _ => false

section

variable {α β γ : Type} [Scalar α]

namespace Foreseen

variable {R : β → γ → Prop} {real : Reading α β} {dry : Reading α γ}

/-- **Where the dry run comes to a value** the real one does too, or it wants data: a figure is not
on file, or the source fails a question that is also one of the dry run. -/
theorem run_cases (h : Foreseen R real dry) {w : γ} (hdry : dry.run standInSource = .ok w)
    (source : MetricSource α) :
    (∃ v, real.run source = .ok v ∧ R v w) ∨
      (∃ symbol date figure, real.run source = .error (.missingData symbol date figure)) ∨
      ∃ q ∈ dry.asked standInSource, ∃ e, source.answer q = .error e ∧
        real.run source = .error e := by
  induction h with
  | done h =>
    cases hdry
    exact .inl ⟨_, rfl, h⟩
  | failed e e' => cases hdry
  | missing symbol date figure dry => exact .inr (.inl ⟨symbol, date, figure, rfl⟩)
  | @ask q next dry _ ih =>
    have hstandIn := answer_standInSource (α := α) q
    rw [Reading.run_ask_of_ok hstandIn] at hdry
    rw [Reading.asked_ask_of_ok hstandIn]
    cases hx : source.answer q with
    | error e =>
      exact .inr (.inr ⟨q, List.mem_cons_self, e, hx, Reading.run_ask_of_error hx⟩)
    | ok x =>
      rw [Reading.run_ask_of_ok hx]
      refine (ih x hdry).imp_right (Or.imp_right ?_)
      rintro ⟨q', hq', he⟩
      exact ⟨q', List.mem_cons_of_mem q hq', he⟩

/-- **Where the dry run fails** no run comes to a value. -/
theorem run_ne_ok (h : Foreseen R real dry) {e : EvalError α}
    (hdry : dry.run standInSource = .error e) (source : MetricSource α) (v : β) :
    real.run source ≠ .ok v := by
  induction h with
  | done h => cases hdry
  | failed e e' => exact nofun
  | missing symbol date figure dry => exact nofun
  | @ask q next dry _ ih =>
    rw [Reading.run_ask_of_ok (answer_standInSource q)] at hdry
    cases hx : source.answer q with
    | error e =>
      rw [Reading.run_ask_of_error hx]
      exact nofun
    | ok x =>
      rw [Reading.run_ask_of_ok hx]
      exact ih x hdry

end Foreseen

namespace Formula

variable {formula : Formula α} {symbol : Symbol} {date : Date}

theorem foreseen_evaluateUnchecked (h : formula.tree.hasFixedDates = true) (symbol : Symbol)
    (date : Date) : Foreseen (fun _ _ : α => True) (formula.evaluateUnchecked symbol date)
      (formula.evaluateUnchecked symbol date) := by
  refine (Expr.foreseen_eval symbol date h).bind fun v w hvw => ?_
  cases hvw with
  | number x y => exact .done trivial
  | text s => exact .failed _ _

theorem run_evaluate (formula : Formula α) (symbol : Symbol) (date : Date)
    (source : MetricSource α) : (formula.evaluate symbol date).run source =
      ((formula.evaluateUnchecked symbol date).run source).bind fun x =>
        if Scalar.isFinite x then .ok x else .error (.nonFinite x) := by
  rw [evaluate, Reading.bind_eq, Reading.run_bind]
  cases (formula.evaluateUnchecked symbol date).run source with
  | error e => rfl
  | ok x =>
    show Reading.run source (if Scalar.isFinite x then .done x else .failed (.nonFinite x)) =
      if Scalar.isFinite x then .ok x else .error (.nonFinite x)
    split <;> rfl

/-- A dry run ends as a run on stand-ins does, and lists what is required of its job. -/
theorem dryRun_eq (formula : Formula α) (symbol : Symbol) (date : Date) :
    formula.dryRun symbol date =
      ((formula.evaluateUnchecked symbol date).run standInSource).map fun _ =>
        formula.requirements [⟨date, symbol⟩] := by
  rw [← Reading.record_snd _ .empty, dryRun]
  show _ = Except.map (fun _ =>
    ((formula.evaluateUnchecked symbol date).record .empty).1.requirements) _
  split <;> rename_i heq <;> rw [heq] <;> rfl

/-- The ends of a run that a dry run which came through leaves open. -/
inductive Ending (source : MetricSource α) (r : Requirements) : Except (EvalError α) α → Prop
  | value (x : α) (h : Scalar.isFinite x = true) : Ending source r (.ok x)
  | nonFinite (x : α) (h : Scalar.isFinite x = false) : Ending source r (.error (.nonFinite x))
  | missingData (symbol : Symbol) (date : Date) (figure : Option Figure) :
      Ending source r (.error (.missingData symbol date figure))
  /-- The source itself failed a question that is listed. -/
  | failed (q : Question) (e : EvalError α) (hq : r.Lists q) (he : source.answer q = .error e) :
      Ending source r (.error e)

theorem Ending.failsWith {source : MetricSource α} {r : Requirements}
    {outcome : Except (EvalError α) α} (h : Ending source r outcome)
    (hsource : ∀ q e, source.answer q = .error e → e.isUsage = false) :
    outcome.FailsWith fun e => e.isUsage = false := by
  rintro e rfl
  cases h with
  | nonFinite x hx => rfl
  | missingData symbol date figure => rfl
  | failed q e hq he => exact hsource q e he

theorem ending_of_dryRun (h : formula.tree.hasFixedDates = true) {r : Requirements}
    (hr : formula.dryRun symbol date = .ok r) (source : MetricSource α) :
    Ending source r ((formula.evaluate symbol date).run source) := by
  rw [dryRun_eq] at hr
  obtain ⟨w, hdry, rfl⟩ := Except.map_eq_ok_iff.1 hr
  rw [run_evaluate]
  rcases (foreseen_evaluateUnchecked h symbol date).run_cases hdry source with
    ⟨x, hx, _⟩ | ⟨symbol', date', figure, hmissing⟩ | ⟨q, hq, e, he, hfails⟩
  · rw [hx]
    show Ending source _ (if Scalar.isFinite x then .ok x else .error (.nonFinite x))
    split
    · exact .value x ‹_›
    · exact .nonFinite x (by simpa using ‹¬ Scalar.isFinite x = true›)
  · rw [hmissing]
    exact .missingData symbol' date' figure
  · rw [hfails]
    refine .failed q e ((formula.lists_requirements _ q).2 ⟨_, List.mem_cons_self, ?_⟩) he
    rwa [asked_evaluateUnchecked] at hq

/-- **A dry run simulates every run** of a formula with fixed dates.  Sources that answer alike what
is listed lead to the same result; if the dry run comes through, a run comes to a finite value or it
wants data, and no usage fault is left; if the dry run fails, no run comes to a value. -/
theorem dry_run_simulates (h : formula.tree.hasFixedDates = true) (symbol : Symbol)
    (date : Date) :
    (∀ s s' : MetricSource α,
      (∀ q, (formula.requirements [⟨date, symbol⟩]).Lists q → s.Agree s' q) →
      (formula.evaluate symbol date).run s = (formula.evaluate symbol date).run s') ∧
    (∀ r, formula.dryRun symbol date = .ok r → ∀ source : MetricSource α,
      Ending source r ((formula.evaluate symbol date).run source) ∧
      ((∀ q e, source.answer q = .error e → e.isUsage = false) →
        ((formula.evaluate symbol date).run source).FailsWith fun e => e.isUsage = false)) ∧
    ∀ e, formula.dryRun symbol date = .error e → ∀ (source : MetricSource α) x,
      (formula.evaluate symbol date).run source ≠ .ok x := by
  refine ⟨fun s s' hagree => ?_, fun r hr source => ?_, fun e he source x hx => ?_⟩
  · exact Reading.run_congr _ fun q hq => hagree q (lists_of_asked h List.mem_cons_self hq)
  · have hending := ending_of_dryRun h hr source
    exact ⟨hending, hending.failsWith⟩
  · rw [dryRun_eq] at he
    rw [run_evaluate] at hx
    obtain ⟨v, hv, _⟩ := Except.bind_eq_ok_iff.1 hx
    cases hdry : (formula.evaluateUnchecked symbol date).run standInSource with
    | ok w =>
      rw [hdry] at he
      cases he
    | error e => exact (foreseen_evaluateUnchecked h symbol date).run_ne_ok hdry source v hv

def earningsPerRisk : Formula Float :=
  ⟨"peRatio(currentDate) / stdev(nDaysAgo(20), currentDate)",
    .binary .div (.call .peRatio [.currentDate])
      (.call .stdev [.call .nDaysAgo [.number 20], .currentDate])⟩

/-- On 20 January 2024 the formula can fail for want of data only, on whatever data. -/
theorem dry_run_simulates_earningsPerRisk : ∃ r,
    earningsPerRisk.dryRun "AAPL" ⟨739210, by decide⟩ = .ok r ∧ ∀ source : MetricSource Float,
      (∀ q e, source.answer q = .error e → e.isUsage = false) →
      ((earningsPerRisk.evaluate "AAPL" ⟨739210, by decide⟩).run source).FailsWith
        fun e => e.isUsage = false := by
  have hdry : (earningsPerRisk.dryRun "AAPL" ⟨739210, by decide⟩).toOption.any (fun _ => true) =
      true := by
    decide +kernel
  obtain ⟨r, hr, _⟩ := Except.exists_of_toOption_any hdry
  have hfixed : earningsPerRisk.tree.hasFixedDates = true := rfl
  exact ⟨r, hr, fun source hsource =>
    ((dry_run_simulates hfixed "AAPL" _).2.1 r hr source).2 hsource⟩

end Formula

end

end FactorPortfolio
