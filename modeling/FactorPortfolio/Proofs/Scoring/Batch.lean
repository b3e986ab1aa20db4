import FactorPortfolio.Formula.Parser
import FactorPortfolio.Proofs.Cache.Loaded
import FactorPortfolio.Proofs.Scoring.Collected
import FactorPortfolio.Scalar.Binary64
import Mathlib.Tactic.Common

/-!
# A batch from end to end

A batch is scored by loading a cache for the requirements of its jobs and evaluating every job
against it.

* `score_eq_ok_iff`: when a batch is scored, and what its days are then.
* `failsWith_load`: loading never fails with a fault of the engine itself, so only a look-up can.
* `isInternal_iff`: the outcome of a job is such a fault if and only if its evaluation asks the
  cache a question that the requirements do not list.
* `get?_score`: where none is, every outcome is the one that the market behind the stores gives.

At the end stand the formula and the shares that batches, plans and backtests are tried on.
-/

namespace FactorPortfolio

namespace Loader

variable {α : Type}

def OfLoading : RunError α → Prop
  | .store _ | .reversedWindow _ _ _ => True
  | _ => False

theorem failsWith_liftStore {β : Type} (x : Except StoreError β) :
    (liftStore x : Except (RunError α) β).FailsWith OfLoading := by
  intro e he
  cases x with
  | ok b => cases he
  | error e' =>
    cases he
    trivial

theorem failsWith_fetchFor (l : Loader α) (r : Requirements) :
    (l.fetchFor r).FailsWith OfLoading := by
  rw [fetchFor]
  split
  · exact Except.failsWith_ok _
  · rw [fetch]
    refine (failsWith_liftStore _).bind fun points => ?_
    refine (failsWith_liftStore _).bind fun days => ?_
    cases l.quotes with
    | none => exact Except.failsWith_ok _
    | some source => exact (failsWith_liftStore _).bind fun quotes => Except.failsWith_ok _

theorem failsWith_record (l : Loader α) (r : PointRequest) : (l.record r).FailsWith OfLoading := by
  rw [record]
  split
  · exact Except.failsWith_ok _
  · exact failsWith_liftStore _

variable [Scalar α]

theorem failsWith_stdev? (f : Fetched α) (windows : Table Symbol DateWindow) (w : WindowRequest) :
    (f.stdev? windows w).FailsWith OfLoading := by
  intro e he
  rw [Fetched.stdev?] at he
  split at he
  · rw [dailyReturns] at he
    split at he
    · cases he
      trivial
    · cases he
  · cases he

/-- **Loading fails with a fault of a store or with a window that is reversed**, if it fails. -/
theorem failsWith_load (l : Loader α) (r : Requirements) : (l.load r).FailsWith OfLoading := by
  rw [load_eq]
  refine (failsWith_fetchFor l r).bind fun fetched => ?_
  refine (Except.failsWith_mapM (fun w => ?_) _).bind fun stdevs => ?_
  · exact (failsWith_stdev? fetched _ w).bind fun _ => Except.failsWith_ok _
  refine (Except.failsWith_mapM (fun p => ?_) _).bind fun records => ?_
  · exact (failsWith_record l p).bind fun _ => Except.failsWith_ok _
  exact Except.failsWith_ok _

end Loader

namespace Scoring

variable {α : Type} [Scalar α]

def outcomes (source : MetricSource α) (formula : Formula α) (jobs : List Job) :
    List (Outcome α) :=
  jobs.map fun job => (job, (formula.evaluate job.symbol job.date).run source)

variable {l : Loader α} {formula : Formula α} {days : List Date} {symbols : List Symbol}
  {cancelled : Bool}

theorem mem_jobs {job : Job} :
    job ∈ jobs days symbols ↔ job.date ∈ days ∧ job.symbol ∈ symbols := by
  obtain ⟨date, symbol⟩ := job
  simp [jobs]

theorem jobs_ne_nil (hdays : days ≠ []) (hsymbols : symbols ≠ []) : jobs days symbols ≠ [] := by
  obtain ⟨date, hdate⟩ := List.exists_mem_of_ne_nil days hdays
  obtain ⟨symbol, hsymbol⟩ := List.exists_mem_of_ne_nil symbols hsymbols
  exact List.ne_nil_of_mem ((mem_jobs : ⟨date, symbol⟩ ∈ _ ↔ _).2 ⟨hdate, hsymbol⟩)

theorem nodup_jobs (hdays : days.Nodup) (hsymbols : symbols.Nodup) :
    (jobs days symbols).Nodup := by
  rw [List.Nodup, jobs, List.pairwise_flatMap]
  constructor
  · intro date _
    exact List.pairwise_map.2 (hsymbols.imp fun hne heq => hne (congrArg Job.symbol heq))
  · refine hdays.imp ?_
    intro d d' hne job hjob job' hjob' heq
    obtain ⟨_, _, rfl⟩ := List.mem_map.1 hjob
    obtain ⟨_, _, rfl⟩ := List.mem_map.1 hjob'
    exact hne (congrArg Job.date heq)

theorem mem_outcomes {source : MetricSource α} {batch : List Job} {o : Outcome α} :
    o ∈ outcomes source formula batch ↔
      o.1 ∈ batch ∧ (formula.evaluate o.1.symbol o.1.date).run source = o.2 := by
  rw [outcomes, List.mem_map]
  constructor
  · rintro ⟨job, hjob, rfl⟩
    exact ⟨hjob, rfl⟩
  · rintro ⟨hjob, hrun⟩
    exact ⟨o.1, hjob, by rw [hrun]⟩

theorem outcomes_functional {source : MetricSource α} {batch : List Job} :
    ∀ o ∈ outcomes source formula batch, ∀ o' ∈ outcomes source formula batch,
      o.1 = o'.1 → o.2 = o'.2 := by
  intro o ho o' ho' heq
  rw [← (mem_outcomes.1 ho).2, ← (mem_outcomes.1 ho').2, heq]

theorem runJobs_eq (source : MetricSource α) (formula : Formula α) (batch : List Job)
    (cancelled : Bool) : runJobs source formula batch cancelled =
      collect batch (if cancelled then [] else outcomes source formula batch) := rfl

theorem score_of_jobs_eq_nil (h : jobs days symbols = []) :
    score l formula days symbols cancelled = .error .noInputs := by
  simp only [score, h, List.isEmpty_nil]
  rfl

theorem score_of_jobs_ne_nil (h : jobs days symbols ≠ []) :
    score l formula days symbols cancelled =
      l.load (formula.requirements (jobs days symbols)) >>= fun cache =>
        runJobs cache.source formula (jobs days symbols) cancelled := by
  have hempty : (jobs days symbols).isEmpty = false := by simpa using h
  simp only [score, hempty]
  rfl

theorem runJobs_eq_ok_iff {source : MetricSource α} {batch : List Job} (hbatch : batch ≠ [])
    {out : DailyScores α} : runJobs source formula batch cancelled = .ok out ↔
      cancelled = false ∧ (∀ o ∈ outcomes source formula batch, o.isInternal = false) ∧
        ∀ date, out.get? date = if date ∈ batch.map Job.date then
          some (resultOf (outcomes source formula batch) date) else none := by
  rw [runJobs_eq]
  cases cancelled with
  | true =>
    rw [if_pos rfl, collect_eq_ok_iff (by simp)]
    constructor
    · rintro ⟨_, hlength, _⟩
      exact absurd (List.length_eq_zero_iff.1 (Nat.le_zero.1 hlength)) hbatch
    · rintro ⟨hcancelled, _⟩
      cases hcancelled
  | false =>
    rw [if_neg (by decide), collect_eq_ok_iff fun o ho => (mem_outcomes.1 ho).1]
    simp [outcomes]

/-- **When a batch is scored, and what it is then.** -/
theorem score_eq_ok_iff {out : DailyScores α} :
    score l formula days symbols cancelled = .ok out ↔
      jobs days symbols ≠ [] ∧ cancelled = false ∧ ∃ cache,
        l.load (formula.requirements (jobs days symbols)) = .ok cache ∧
        (∀ o ∈ outcomes cache.source formula (jobs days symbols), o.isInternal = false) ∧
        ∀ date, out.get? date = if date ∈ (jobs days symbols).map Job.date then
          some (resultOf (outcomes cache.source formula (jobs days symbols)) date) else none := by
  by_cases hjobs : jobs days symbols = []
  · rw [score_of_jobs_eq_nil hjobs]
    exact ⟨nofun, fun h => absurd hjobs h.1⟩
  · rw [score_of_jobs_ne_nil hjobs, Except.bind_eq_ok_iff]
    simp only [runJobs_eq_ok_iff hjobs]
    constructor
    · rintro ⟨cache, hload, hcancelled, hout⟩
      exact ⟨hjobs, hcancelled, cache, hload, hout⟩
    · rintro ⟨_, hcancelled, cache, hload, hout⟩
      exact ⟨cache, hload, hcancelled, hout⟩

/-! ### Unforeseen look-ups -/

theorem isInternal_iff {r : Requirements} {cache : Cache α} (hload : l.load r = .ok cache)
    (job : Job) :
    Outcome.isInternal (job, (formula.evaluate job.symbol job.date).run cache.source) = true ↔
      ∃ q ∈ (formula.evaluate job.symbol job.date).asked cache.source, ¬ r.Lists q := by
  rw [Outcome.isInternal]
  constructor
  · intro h
    cases hrun : (formula.evaluate job.symbol job.date).run cache.source with
    | ok x =>
      rw [hrun] at h
      cases h
    | error e =>
      rw [hrun] at h
      have hmiss : e.isCacheMiss = true := by
        cases e <;> first | rfl | cases h
      obtain ⟨q, hq, hfault⟩ := ((formula.within_evaluate job.symbol job.date
        (Expr.within_eval_symbol _)).exists_fault hmiss hrun)
      exact ⟨q, hq, (Loader.exists_internal_fault_iff hload q).1 ⟨e, hfault, h⟩⟩
  · rintro ⟨q, hq, hlists⟩
    obtain ⟨e, hfault, hinternal⟩ := (Loader.exists_internal_fault_iff hload q).2 hlists
    rw [Reading.run_eq_error hq hfault]
    exact hinternal

theorem score_eq_internal_iff : (∃ fault,
    score l formula days symbols cancelled = .error (.internal fault)) ↔
      cancelled = false ∧ ∃ cache,
        l.load (formula.requirements (jobs days symbols)) = .ok cache ∧
        ∃ job ∈ jobs days symbols,
          ∃ q ∈ (formula.evaluate job.symbol job.date).asked cache.source,
            ¬ (formula.requirements (jobs days symbols)).Lists q := by
  by_cases hjobs : jobs days symbols = []
  · rw [score_of_jobs_eq_nil hjobs, hjobs]
    constructor
    · rintro ⟨fault, he⟩
      cases he
    · rintro ⟨_, _, _, job, hjob, _⟩
      cases hjob
  · rw [score_of_jobs_ne_nil hjobs]
    cases hload : l.load (formula.requirements (jobs days symbols)) with
    | error e =>
      constructor
      · rintro ⟨fault, he⟩
        cases he
        exact (Loader.failsWith_load l _ _ hload).elim
      · rintro ⟨_, cache, hcache, _⟩
        cases hcache
    | ok cache =>
      show (∃ fault, runJobs cache.source formula (jobs days symbols) cancelled =
        .error (.internal fault)) ↔ _
      rw [runJobs_eq, exists_internal_iff]
      cases cancelled with
      | true => simp
      | false =>
        simp only [Bool.false_eq_true, if_false, true_and, Except.ok.injEq, exists_eq_left',
          outcomes, List.mem_map, exists_exists_and_eq_and, isInternal_iff hload]

theorem exists_score_eq_ok (hjobs : jobs days symbols ≠ []) {cache : Cache α}
    (hload : l.load (formula.requirements (jobs days symbols)) = .ok cache)
    (hlists : ∀ job ∈ jobs days symbols,
      ∀ q ∈ (formula.evaluate job.symbol job.date).asked cache.source,
        (formula.requirements (jobs days symbols)).Lists q) :
    ∃ out, score l formula days symbols false = .ok out := by
  rw [score_of_jobs_ne_nil hjobs, hload]
  refine exists_collect_eq_ok (fun o ho => ?_) (by simp)
  obtain ⟨job, hjob, rfl⟩ := List.mem_map.1 ho
  by_contra hinternal
  obtain ⟨q, hq, hnot⟩ := (isInternal_iff hload job).1 (Bool.eq_true_of_not_eq_false hinternal)
  exact hnot (hlists job hjob q hq)

/-! ### Answers of the market -/

/-- The volatilities that a batch measures. -/
def batchVolatility (m : Market α) (formula : Formula α) (batch : List Job) :
    Symbol → Date → Date → Option α :=
  m.volatility (formula.requirements batch).symbolWindows

/-- What a batch can know of a market. -/
def marketSource (m : Market α) (formula : Formula α) (batch : List Job) : MetricSource α :=
  m.source (batchVolatility m formula batch)

theorem run_market_ne_internal {m : Market α} {volatility : Symbol → Date → Date → Option α}
    {symbol : Symbol} {date : Date} {e : EvalError α}
    (h : (formula.evaluate symbol date).run (m.source volatility) = .error e) :
    e.isInternalFault = false := by
  by_contra hinternal
  have hmiss : e.isCacheMiss = true := by
    cases e <;> first | rfl | exact absurd rfl hinternal
  obtain ⟨q, _, hfault⟩ := (formula.within_evaluate symbol date
    (Expr.within_eval_symbol _)).exists_fault hmiss h
  exact hinternal (Market.isInternalFault_of_answer hfault)

theorem agree_marketSource {m : Market α} (hl : l.Keeps m) {batch : List Job} {cache : Cache α}
    (hload : l.load (formula.requirements batch) = .ok cache) {job : Job}
    (h : ∀ q ∈ (formula.evaluate job.symbol job.date).asked cache.source,
      (formula.requirements batch).Lists q) :
    ∀ q ∈ (formula.evaluate job.symbol job.date).asked cache.source,
      cache.source.Agree (marketSource m formula batch) q :=
  fun q hq => Loader.agree_market hl hload (h q hq)

theorem lists_of_score {out : DailyScores α}
    (h : score l formula days symbols cancelled = .ok out) : ∃ cache,
      l.load (formula.requirements (jobs days symbols)) = .ok cache ∧
      (∀ date, out.get? date = if date ∈ (jobs days symbols).map Job.date then
        some (resultOf (outcomes cache.source formula (jobs days symbols)) date) else none) ∧
      ∀ job ∈ jobs days symbols, ∀ q ∈ (formula.evaluate job.symbol job.date).asked cache.source,
        (formula.requirements (jobs days symbols)).Lists q := by
  obtain ⟨_, _, cache, hload, hinternal, hout⟩ := score_eq_ok_iff.1 h
  refine ⟨cache, hload, hout, fun job hjob q hq => ?_⟩
  by_contra hlists
  have hnot := hinternal _ (List.mem_map_of_mem hjob)
  rw [(isInternal_iff hload job).2 ⟨q, hq, hlists⟩] at hnot
  cases hnot

/-- **What is scored is what the market gives**: the cache, its gaps and its book-keeping leave no
trace in it. -/
theorem get?_score {m : Market α} (hl : l.Keeps m) {out : DailyScores α}
    (h : score l formula days symbols cancelled = .ok out) (date : Date) :
    out.get? date = if date ∈ (jobs days symbols).map Job.date then
      some (resultOf (outcomes (marketSource m formula (jobs days symbols)) formula
        (jobs days symbols)) date) else none := by
  obtain ⟨cache, hload, hout, hlists⟩ := lists_of_score h
  have heq : outcomes cache.source formula (jobs days symbols) =
      outcomes (marketSource m formula (jobs days symbols)) formula (jobs days symbols) :=
    List.map_congr_left fun job hjob => congrArg (Prod.mk job)
      (Reading.run_congr _ (agree_marketSource hl hload (hlists job hjob)))
  rw [hout, heq]

theorem mem_dates_of_score {out : DailyScores α}
    (h : score l formula days symbols cancelled = .ok out) {date : Date} :
    date ∈ (jobs days symbols).map Job.date ↔ date ∈ days := by
  obtain ⟨job, hjob⟩ := List.exists_mem_of_ne_nil _ (score_eq_ok_iff.1 h).1
  simp only [List.mem_map, mem_jobs]
  constructor
  · rintro ⟨job, hjob, rfl⟩
    exact hjob.1
  · intro hdate
    exact ⟨⟨date, job.symbol⟩, ⟨hdate, (mem_jobs.1 hjob).2⟩, rfl⟩

theorem get?_score_of_mem {m : Market α} (hl : l.Keeps m) {out : DailyScores α}
    (h : score l formula days symbols cancelled = .ok out) {date : Date} (hdate : date ∈ days) :
    out.get? date = some (resultOf (outcomes (marketSource m formula (jobs days symbols)) formula
      (jobs days symbols)) date) := by
  rw [get?_score hl h, if_pos ((mem_dates_of_score h).2 hdate)]

theorem lists_of_asked_market {m : Market α} (hl : l.Keeps m) {out : DailyScores α}
    (h : score l formula days symbols cancelled = .ok out) {job : Job}
    (hjob : job ∈ jobs days symbols) {q : Question}
    (hq : q ∈ (formula.evaluate job.symbol job.date).asked
      (marketSource m formula (jobs days symbols))) :
    (formula.requirements (jobs days symbols)).Lists q := by
  obtain ⟨cache, hload, _, hlists⟩ := lists_of_score h
  rw [← Reading.asked_congr _ (agree_marketSource hl hload (hlists job hjob))] at hq
  exact hlists job hjob q hq

/-! ### A formula and shares to score -/

/-- The price of the day that is scored. -/
def priceToday : Formula α := ⟨"price(currentDate)", .call .price [.currentDate]⟩

example : Formula.parse "price(currentDate)" = .ok (priceToday : Formula α) := by cbv

theorem eval_priceToday (symbol : Symbol) (date : Date) :
    (priceToday : Formula α).tree.eval symbol date =
      .price symbol date fun x => .done (.number x) := by
  show (Expr.call .price [.currentDate] : Expr α).eval symbol date = _
  rw [Expr.eval, if_pos (by rfl)]
  simp [Function.params, Expr.argument, Expr.evalArgs, Expr.eval, Reading.bind, Expr.dateOf,
    Except.mapError, Reading.ofExcept, Bind.bind, Pure.pure, Expr.applyFunction, Reading.askPrice]

theorem run_priceToday {symbol : Symbol} {date : Date} {source : MetricSource α} {x : α}
    (h : ((priceToday : Formula α).evaluate symbol date).run source = .ok x) :
    source.price symbol date = .ok x := by
  have heval : (priceToday : Formula α).evaluate symbol date = .price symbol date fun x =>
      if Scalar.isFinite x then .done x else .failed (.nonFinite x) := by
    rw [Formula.evaluate, Formula.evaluateUnchecked, eval_priceToday]
    rfl
  rw [heval, Reading.run] at h
  split at h
  · rename_i y hy
    split at h
    · rw [hy]
      exact h
    · cases h
  · cases h

/-- The days of 2024 by their numbers; 0 is the day before the first of January. -/
def january (n : Fin 100) : Date := ⟨739190 + (n : Nat), by omega⟩

def share (prices : List (Fin 100 × Float)) : MemoryStore Float :=
  prices.foldl (fun s p => s.insertPrice "AAPL" (january p.1) p.2) (.empty 1)

/-- The same days by any number; after the last of them they are counted from the first again. -/
def dayOf (n : Nat) : Date := january (Fin.ofNat 100 n)

def shares {α : Type} (minSymbols : Nat) (prices : List (Symbol × Nat × α)) : MemoryStore α :=
  prices.foldl (fun s p => s.insertPrice p.1 (dayOf p.2.1) p.2.2) (.empty minSymbols)

end Scoring

end FactorPortfolio
