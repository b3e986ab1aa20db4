import FactorPortfolio.Formula.Eval

/-! # What a formula reads

The dry run answers every question of a reading with a stand-in and keeps the questions. Formulas
have no branches, so the questions of one run are those of every run as long as no answer is made
into a date.
-/

namespace FactorPortfolio

structure PointRequest where
  symbol : Symbol
  date : Date
  deriving DecidableEq

structure WindowRequest where
  symbol : Symbol
  start : Date
  stop : Date
  deriving DecidableEq

namespace PointRequest

instance : Ord PointRequest := ⟨compareLex (compareOn symbol) (compareOn date)⟩

instance : Std.TransOrd PointRequest :=
  inferInstanceAs (Std.TransCmp (compareLex (compareOn symbol) (compareOn date)))

instance : Std.LawfulEqOrd PointRequest where
  eq_of_compare {a b} h := by
    obtain ⟨hs, hd⟩ := compareLex_eq_eq.1 h
    obtain ⟨s, d⟩ := a
    obtain ⟨s', d'⟩ := b
    rw [show s = s' from Std.LawfulEqOrd.eq_of_compare hs,
      show d = d' from Std.LawfulEqOrd.eq_of_compare hd]

end PointRequest

namespace WindowRequest

instance : Ord WindowRequest :=
  ⟨compareLex (compareOn symbol) (compareLex (compareOn start) (compareOn stop))⟩

instance : Std.TransOrd WindowRequest :=
  inferInstanceAs (Std.TransCmp
    (compareLex (compareOn symbol) (compareLex (compareOn start) (compareOn stop))))

instance : Std.LawfulEqOrd WindowRequest where
  eq_of_compare {a b} h := by
    obtain ⟨hs, hd⟩ := compareLex_eq_eq.1 h
    obtain ⟨h1, h2⟩ := compareLex_eq_eq.1 hd
    obtain ⟨s, d, e⟩ := a
    obtain ⟨s', d', e'⟩ := b
    rw [show s = s' from Std.LawfulEqOrd.eq_of_compare hs,
      show d = d' from Std.LawfulEqOrd.eq_of_compare h1,
      show e = e' from Std.LawfulEqOrd.eq_of_compare h2]

end WindowRequest

structure Requirements where
  prices : List PointRequest
  stdevs : List WindowRequest
  fundamentals : List PointRequest

namespace Requirements

def isEmpty (r : Requirements) : Bool :=
  r.prices.isEmpty && r.stdevs.isEmpty && r.fundamentals.isEmpty

/-- The earliest start and the latest end of the prices and windows. -/
def dateSpan (r : Requirements) : Option (Date × Date) :=
  let spans := r.prices.map (fun p => (p.date, p.date)) ++ r.stdevs.map fun w => (w.start, w.stop)
  spans.foldl widen none
where
  widen (span : Option (Date × Date)) (next : Date × Date) : Option (Date × Date) :=
    match span with
    | none => some next
    | some (low, high) => some (low.min next.1, high.max next.2)

end Requirements

/-- The questions met so far, each once. -/
structure Recorded where
  prices : KeySet PointRequest
  stdevs : KeySet WindowRequest
  fundamentals : KeySet PointRequest

namespace Recorded

def empty : Recorded := ⟨.empty, .empty, .empty⟩

def requirements (r : Recorded) : Requirements :=
  ⟨r.prices.keys, r.stdevs.keys, r.fundamentals.keys⟩

def addPrice (r : Recorded) (symbol : Symbol) (date : Date) : Recorded :=
  { r with prices := KeySet.add r.prices ⟨symbol, date⟩ }

def addStdev (r : Recorded) (symbol : Symbol) (start stop : Date) : Recorded :=
  { r with stdevs := KeySet.add r.stdevs ⟨symbol, start, stop⟩ }

def addFundamentals (r : Recorded) (symbol : Symbol) (date : Date) : Recorded :=
  { r with fundamentals := KeySet.add r.fundamentals ⟨symbol, date⟩ }

end Recorded

variable {α β : Type} [Scalar α]

/-- The stand-in for every price and volatility. -/
def standIn : α := 1.0

/-- The stand-in for a record, with a book value other than zero. -/
def standInRecord : Fundamentals α :=
  ⟨some standIn, some standIn, some (standIn * 2.0), some standIn⟩

/-- Runs a reading on stand-ins and adds its questions to those recorded. -/
def Reading.record (recorded : Recorded) :
    Reading α β → Recorded × Except (EvalError α) β
  | .done v => (recorded, .ok v)
  | .failed e => (recorded, .error e)
  | .price symbol date next => (next standIn).record (recorded.addPrice symbol date)
  | .stdev symbol start stop next => (next standIn).record (recorded.addStdev symbol start stop)
  | .fundamentals symbol date next =>
    (next (some standInRecord)).record (recorded.addFundamentals symbol date)

structure Job where
  date : Date
  symbol : Symbol
  deriving DecidableEq

namespace Formula

/-- The questions of a formula for some jobs; what fails on the way is left to the real run. -/
def requirements (formula : Formula α) (jobs : List Job) : Requirements :=
  (jobs.foldl
    (fun recorded job => ((formula.evaluateUnchecked job.symbol job.date).record recorded).1)
    .empty).requirements

/-- The questions of a formula for one symbol and date, or the fault that ends its dry run. -/
def dryRun (formula : Formula α) (symbol : Symbol) (date : Date) :
    Except (EvalError α) Requirements :=
  match (formula.evaluateUnchecked symbol date).record .empty with
  | (recorded, .ok _) => .ok recorded.requirements
  | (_, .error e) => .error e

end Formula

end FactorPortfolio
