import FactorPortfolio.Cache.Load
import FactorPortfolio.Sorting

/-! # Scores

Every pair of a day and a symbol is a job of its own. The outcomes of the jobs are collected day
by day in whatever order they arrive: a score is kept under its symbol, missing data leaves no
trace, any other failure is listed, and a look-up that the dry run had not met fails the batch.
-/

namespace FactorPortfolio

/-- A failure of one symbol on one day that leaves the batch standing. -/
structure ScoreError (α : Type) where
  symbol : Symbol
  date : Date
  error : EvalError α

/-- The scores of one day, and its failures in order of their symbols. -/
structure ScoreResult (α : Type) where
  scores : Table Symbol α
  errors : List (ScoreError α)

abbrev DailyScores (α : Type) := Table Date (ScoreResult α)

namespace Scoring

variable {α : Type} [Scalar α]

abbrev Outcome (α : Type) := Job × Except (EvalError α) α

def jobs (days : List Date) (symbols : List Symbol) : List Job :=
  days.flatMap fun date => symbols.map fun symbol => ⟨date, symbol⟩

/-- What has been collected, and the first fault of the engine itself. -/
structure Tally (α : Type) where
  days : DailyScores α
  fault : Option (EvalError α)

namespace Tally

def start (jobs : List Job) : Tally α :=
  ⟨Table.ofList (jobs.map fun job => (job.date, ⟨∅, []⟩)), none⟩

def day (t : Tally α) (date : Date) : ScoreResult α := (t.days.get? date).getD ⟨∅, []⟩

def addScore (t : Tally α) (job : Job) (score : α) : Tally α :=
  let day := t.day job.date
  ⟨t.days.insert job.date ⟨day.scores.insert job.symbol score, day.errors⟩, t.fault⟩

def addError (t : Tally α) (job : Job) (e : EvalError α) : Tally α :=
  let day := t.day job.date
  ⟨t.days.insert job.date ⟨day.scores, day.errors ++ [⟨job.symbol, job.date, e⟩]⟩, t.fault⟩

def add (t : Tally α) (outcome : Outcome α) : Tally α :=
  match outcome.2 with
  | .ok score => t.addScore outcome.1 score
  | .error e =>
    if e.isMissingData then t
    else if e.isInternalFault then ⟨t.days, t.fault.or (some e)⟩
    else t.addError outcome.1 e

end Tally

/-- Puts failures in order of their symbols; those of one symbol keep their order. -/
def sortErrors (errors : List (ScoreError α)) : List (ScoreError α) :=
  Sorting.sort (fun a b => compare a.symbol b.symbol == .lt) errors

/-- Collects the outcomes of some jobs in the order of their arrival. Fewer outcomes than jobs
mean that the work was called off. -/
def collect (jobs : List Job) (arrived : List (Outcome α)) :
    Except (RunError α) (DailyScores α) :=
  let tally := arrived.foldl Tally.add (.start jobs)
  match tally.fault with
  | some e => .error (.internal (.unforeseenLookup e))
  | none =>
    if arrived.length < jobs.length then .error .cancelled
    else .ok (tally.days.map fun _ day => ⟨day.scores, sortErrors day.errors⟩)

/-- Evaluates a formula for some jobs; once called off, none is evaluated. -/
def runJobs (source : MetricSource α) (formula : Formula α) (jobs : List Job)
    (cancelled : Bool) : Except (RunError α) (DailyScores α) :=
  let outcomes := jobs.map fun job => (job, (formula.evaluate job.symbol job.date).run source)
  collect jobs (if cancelled then [] else outcomes)

/-- Scores every symbol on every day from a cache that has been loaded. -/
def scoreWithCache (cache : Cache α) (formula : Formula α) (days : List Date)
    (symbols : List Symbol) (cancelled : Bool) : Except (RunError α) (DailyScores α) :=
  let batch := jobs days symbols
  if batch.isEmpty then .error .noInputs else runJobs cache.source formula batch cancelled

/-- Scores every symbol on every day: a dry run of all jobs says what the cache is loaded with. -/
def score (loader : Loader α) (formula : Formula α) (days : List Date) (symbols : List Symbol)
    (cancelled : Bool) : Except (RunError α) (DailyScores α) := do
  let batch := jobs days symbols
  if batch.isEmpty then .error .noInputs
  else
    let cache ← loader.load (formula.requirements batch)
    runJobs cache.source formula batch cancelled

end Scoring

end FactorPortfolio
