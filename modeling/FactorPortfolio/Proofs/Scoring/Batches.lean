import FactorPortfolio.Formula.Parser
import FactorPortfolio.Proofs.Scoring.Compared
import Mathlib.Tactic.Common

/-!
# One job in two batches

The jobs of a batch share one window for each symbol, which all their requests have widened.  No
price or record comes out different for it, but a volatility can: with the window of another job it
may find a return late enough to be there at all, and it counts the return from a price before its
start if the window of the batch reaches back to one.

`same_in_batches` says that there is no other way in which the rest of a batch matters to a job.
`differs_in_batches` is a job that is scored in company and not alone.
-/

namespace FactorPortfolio.Scoring

variable {α : Type} [Scalar α] {m : Market α} {formula : Formula α} {batch batch' : List Job}
  {job : Job} {start stop : Date}

/-- The window that a batch has for a symbol holds a price before `start`. -/
def PriceBefore (m : Market α) (formula : Formula α) (batch : List Job) (symbol : Symbol)
    (start : Date) : Prop :=
  ∃ w, (formula.requirements batch).symbolWindows.get? symbol = some w ∧
    (m.prices symbol).Enters w.1 start

/-- Two batches measure a window of both over the same returns exactly if both have a price before
its start or neither does. -/
theorem inside_eq_iff_priceBefore {symbol : Symbol} {w w' : DateWindow}
    (hw : (formula.requirements batch).symbolWindows.get? symbol = some w)
    (hw' : (formula.requirements batch').symbolWindows.get? symbol = some w')
    (hlists : (formula.requirements batch).Lists (.stdev symbol start stop))
    (hlists' : (formula.requirements batch').Lists (.stdev symbol start stop))
    (hm : Measurable start stop (m.returns symbol w)) :
    inside start stop (m.returns symbol w) = inside start stop (m.returns symbol w') ↔
      (PriceBefore m formula batch symbol start ↔ PriceBefore m formula batch' symbol start) := by
  obtain ⟨v, hv, hlow, hhigh⟩ := Requirements.covers_stdev hlists
  obtain ⟨v', hv', hlow', hhigh'⟩ := Requirements.covers_stdev hlists'
  obtain rfl := Option.some.inj (hw.symm.trans hv)
  obtain rfl := Option.some.inj (hw'.symm.trans hv')
  have hne : inside start stop (m.returns symbol w) ≠ [] :=
    List.ne_nil_of_length_pos (Nat.lt_of_lt_of_le Nat.zero_lt_two hm.two)
  simp only [PriceBefore, hw, hw', Option.some.injEq, exists_eq_left']
  exact (m.prices symbol).inside_eq_iff hlow hlow' hhigh hhigh' hne

/-- A window that both batches list has the same volatility in both if it is measurable in both or
in neither, and there over the same returns. -/
theorem batchVolatility_eq {symbol : Symbol}
    (hlists : (formula.requirements batch).Lists (.stdev symbol start stop))
    (hlists' : (formula.requirements batch').Lists (.stdev symbol start stop))
    (hsome : (batchVolatility m formula batch symbol start stop).isSome =
      (batchVolatility m formula batch' symbol start stop).isSome)
    (hbefore : (batchVolatility m formula batch symbol start stop).isSome = true →
      (PriceBefore m formula batch symbol start ↔ PriceBefore m formula batch' symbol start)) :
    batchVolatility m formula batch symbol start stop =
      batchVolatility m formula batch' symbol start stop := by
  obtain ⟨w, hw, _⟩ := Requirements.covers_stdev hlists
  obtain ⟨w', hw', _⟩ := Requirements.covers_stdev hlists'
  rw [batchVolatility, Market.isSome_volatility_iff hw] at hbefore
  rw [batchVolatility, batchVolatility, Bool.eq_iff_iff, Market.isSome_volatility_iff hw,
    Market.isSome_volatility_iff hw'] at hsome
  rw [batchVolatility, batchVolatility, m.volatility_eq hw, m.volatility_eq hw']
  exact annualizedStdev_congr (m.dated_returns symbol w) (m.dated_returns symbol w') hsome
    fun hm _ => (inside_eq_iff_priceBefore hw hw' hlists hlists' hm).2 (hbefore hm)

def BothAsk (m : Market α) (formula : Formula α) (batch batch' : List Job) (job : Job)
    (start stop : Date) : Prop :=
  AsksVolatility m formula batch job start stop ∧ AsksVolatility m formula batch' job start stop

/-- Where both batches measure a window, they measure it over the same returns. -/
def MeasuredAlike (m : Market α) (formula : Formula α) (batch batch' : List Job) (job : Job) :
    Prop :=
  ∀ start stop, BothAsk m formula batch batch' job start stop →
    (batchVolatility m formula batch job.symbol start stop).isSome = true →
    (batchVolatility m formula batch' job.symbol start stop).isSome = true →
    (PriceBefore m formula batch job.symbol start ↔ PriceBefore m formula batch' job.symbol start)

section

variable (hlists : ∀ q ∈ (formula.evaluate job.symbol job.date).asked
    (marketSource m formula batch), (formula.requirements batch).Lists q)
  (hlists' : ∀ q ∈ (formula.evaluate job.symbol job.date).asked
    (marketSource m formula batch'), (formula.requirements batch').Lists q)

include hlists hlists'

theorem batchVolatility_eq_of_measuredAlike (h : MeasuredAlike m formula batch batch' job)
    (hboth : BothAsk m formula batch batch' job start stop)
    (hsome : (batchVolatility m formula batch job.symbol start stop).isSome =
      (batchVolatility m formula batch' job.symbol start stop).isSome) :
    batchVolatility m formula batch job.symbol start stop =
      batchVolatility m formula batch' job.symbol start stop :=
  batchVolatility_eq (hlists _ hboth.1) (hlists' _ hboth.2) hsome fun hfirst =>
    h start stop hboth hfirst (hsome ▸ hfirst)

theorem run_eq_of_measuredAlike (h : MeasuredAlike m formula batch batch' job)
    (hsome : ∀ start stop, BothAsk m formula batch batch' job start stop →
      (batchVolatility m formula batch job.symbol start stop).isSome =
        (batchVolatility m formula batch' job.symbol start stop).isSome) :
    (formula.evaluate job.symbol job.date).run (marketSource m formula batch) =
      (formula.evaluate job.symbol job.date).run (marketSource m formula batch') := by
  -- the first question on which the batches differ is one that both are asked
  rcases Reading.agree_or_exists_difference (marketSource m formula batch)
    (marketSource m formula batch') (formula.evaluate job.symbol job.date) with
    hall | ⟨q, hq, hq', hne⟩
  · exact Reading.run_congr _ hall
  · refine absurd (m.agree_of_volatility_eq ?_) hne
    rintro symbol start stop rfl
    obtain rfl : symbol = job.symbol := symbol_of_asked hq
    exact batchVolatility_eq_of_measuredAlike hlists hlists' h ⟨hq, hq'⟩
      (hsome start stop ⟨hq, hq'⟩)

theorem isSome_eq_of_measuredAlike (h : MeasuredAlike m formula batch batch' job)
    (hjob : job ∈ batch) (hjob' : job ∈ batch')
    (hsame : (resultOf (outcomes (marketSource m formula batch) formula batch) job.date).SameFor
      job.symbol (resultOf (outcomes (marketSource m formula batch') formula batch') job.date))
    (hq : AsksVolatility m formula batch job start stop) :
    (batchVolatility m formula batch job.symbol start stop).isSome =
      (batchVolatility m formula batch' job.symbol start stop).isSome := by
  refine Market.isSome_eq_of_run (formula.within_evaluate job.symbol job.date
    (Expr.within_eval_symbol _)) (fun q _ => m.agree_of_volatility_eq)
    (fun symbol start stop hq hq' hsome => ?_)
    (fun e he => run_eq_error_iff_of_sameFor hjob hjob' hsame he) hq
  obtain rfl : symbol = job.symbol := symbol_of_asked hq
  exact batchVolatility_eq_of_measuredAlike hlists hlists' h ⟨hq, hq'⟩ hsome

theorem measuredAlike_iff : MeasuredAlike m formula batch batch' job ↔
    ∀ start stop, BothAsk m formula batch batch' job start stop → ∀ w w',
      (formula.requirements batch).symbolWindows.get? job.symbol = some w →
      (formula.requirements batch').symbolWindows.get? job.symbol = some w' →
      Measurable start stop (m.returns job.symbol w) →
      Measurable start stop (m.returns job.symbol w') →
      inside start stop (m.returns job.symbol w) = inside start stop (m.returns job.symbol w') := by
  apply forall₂_congr
  intro start stop
  apply forall_congr'
  intro hboth
  obtain ⟨w, hw, _⟩ := Requirements.covers_stdev (hlists _ hboth.1)
  obtain ⟨w', hw', _⟩ := Requirements.covers_stdev (hlists' _ hboth.2)
  have hiff := inside_eq_iff_priceBefore (m := m) hw hw' (hlists _ hboth.1) (hlists' _ hboth.2)
  simp only [batchVolatility, Market.isSome_volatility_iff hw, Market.isSome_volatility_iff hw', hw,
    hw', Option.some.injEq]
  constructor
  · rintro h _ _ rfl rfl hm hm'
    exact (hiff hm).2 (h hm hm')
  · intro h hm hm'
    exact (hiff hm).1 (h w w' rfl rfl hm hm')

end

/-- **A job comes out the same in two batches exactly if it finds the same volatilities missing**,
provided that the batches measure alike; and this they do exactly if the returns that they measure
are the same. -/
theorem same_in_batches {l : Loader α} (hl : l.Keeps m) {days days' : List Date}
    {symbols symbols' : List Symbol} {out out' : DailyScores α}
    (hout : score l formula days symbols false = .ok out)
    (hout' : score l formula days' symbols' false = .ok out') (hjob : job ∈ jobs days symbols)
    (hjob' : job ∈ jobs days' symbols') :
    ∃ r r', out.get? job.date = some r ∧ out'.get? job.date = some r' ∧
      (MeasuredAlike m formula (jobs days symbols) (jobs days' symbols') job →
        (r.SameFor job.symbol r' ↔ ∀ start stop,
          BothAsk m formula (jobs days symbols) (jobs days' symbols') job start stop →
          (batchVolatility m formula (jobs days symbols) job.symbol start stop).isSome =
            (batchVolatility m formula (jobs days' symbols') job.symbol start stop).isSome)) ∧
      (MeasuredAlike m formula (jobs days symbols) (jobs days' symbols') job ↔ ∀ start stop,
        BothAsk m formula (jobs days symbols) (jobs days' symbols') job start stop → ∀ w w',
        (formula.requirements (jobs days symbols)).symbolWindows.get? job.symbol = some w →
        (formula.requirements (jobs days' symbols')).symbolWindows.get? job.symbol = some w' →
        Measurable start stop (m.returns job.symbol w) →
        Measurable start stop (m.returns job.symbol w') →
        inside start stop (m.returns job.symbol w) =
          inside start stop (m.returns job.symbol w')) := by
  have hlists : ∀ q ∈ (formula.evaluate job.symbol job.date).asked
      (marketSource m formula (jobs days symbols)),
      (formula.requirements (jobs days symbols)).Lists q :=
    fun q hq => lists_of_asked_market hl hout hjob hq
  have hlists' : ∀ q ∈ (formula.evaluate job.symbol job.date).asked
      (marketSource m formula (jobs days' symbols')),
      (formula.requirements (jobs days' symbols')).Lists q :=
    fun q hq => lists_of_asked_market hl hout' hjob' hq
  refine ⟨_, _, get?_score_of_mem hl hout (mem_jobs.1 hjob).1,
    get?_score_of_mem hl hout' (mem_jobs.1 hjob').1, ?_, measuredAlike_iff hlists hlists'⟩
  intro halike
  constructor
  · intro hsame start stop hboth
    exact isSome_eq_of_measuredAlike hlists hlists' halike hjob hjob' hsame hboth.1
  · intro hsome
    exact sameFor_of_run_eq hjob hjob' (run_eq_of_measuredAlike hlists hlists' halike hsome)

/-- A day comes out the same alone and together with the day after. -/
theorem same_in_batches_of_next_day : ∃ out out' r r',
    score (share [(1, 100), (2, 200), (20, 100)]).loader lastTwentyDays [january 21] ["AAPL"]
      false = .ok out ∧
    score (share [(1, 100), (2, 200), (20, 100)]).loader lastTwentyDays [january 21, january 22]
      ["AAPL"] false = .ok out' ∧
    out.get? (january 21) = some r ∧ out'.get? (january 21) = some r' ∧ r.SameFor "AAPL" r' := by
  have hscored : (score (share [(1, 100), (2, 200), (20, 100)]).loader lastTwentyDays
      [january 21] ["AAPL"] false).toOption.any (fun _ => true) = true := by
    decide +kernel
  have hscored' : (score (share [(1, 100), (2, 200), (20, 100)]).loader lastTwentyDays
      [january 21, january 22] ["AAPL"] false).toOption.any (fun _ => true) = true := by
    decide +kernel
  obtain ⟨out, hout, _⟩ := Except.exists_of_toOption_any hscored
  obtain ⟨out', hout', _⟩ := Except.exists_of_toOption_any hscored'
  have hasked : (lastTwentyDays.evaluate "AAPL" (january 21)).asked (marketSource
      (share [(1, 100), (2, 200), (20, 100)]).market lastTwentyDays (jobs [january 21] ["AAPL"])) =
      [.stdev "AAPL" (january 1) (january 21)] := by
    decide +kernel
  have hwindow : (lastTwentyDays.requirements (jobs [january 21] ["AAPL"])).symbolWindows.get?
      "AAPL" = some (january 1, january 21) := by
    decide +kernel
  have hwindow' : (lastTwentyDays.requirements
      (jobs [january 21, january 22] ["AAPL"])).symbolWindows.get? "AAPL" =
        some (january 1, january 22) := by
    decide +kernel
  obtain ⟨r, r', hr, hr', hiff, _⟩ := same_in_batches (MemoryStore.keeps_loader _) hout hout'
    (show (⟨january 21, "AAPL"⟩ : Job) ∈ jobs [january 21] ["AAPL"] by decide) (by decide)
  refine ⟨out, out', r, r', hout, hout', hr, hr', (hiff ?_).2 ?_⟩
  · rintro start stop ⟨hq, _⟩ - -
    rw [AsksVolatility, hasked, List.mem_singleton] at hq
    cases hq
    -- neither window reaches back beyond the start
    simp only [PriceBefore, hwindow, hwindow', Option.some.injEq, exists_eq_left',
      Series.not_enters_self]
  · rintro start stop ⟨hq, _⟩
    rw [AsksVolatility, hasked, List.mem_singleton] at hq
    cases hq
    decide +kernel

/-- **A day is scored in company and not alone.**  From 4 to 5 January there is one return, too few
for a volatility; with 4 January in the batch the price of 3 January brings a second one. -/
theorem differs_in_batches : ∃ formula : Formula Float, ∃ out out' r r',
    Formula.parse "stdev(nDaysAgo(1), currentDate)" = .ok formula ∧
    score (share [(3, 100), (4, 200), (5, 100)]).loader formula [january 5] ["AAPL"] false =
      .ok out ∧
    score (share [(3, 100), (4, 200), (5, 100)]).loader formula [january 4, january 5] ["AAPL"]
      false = .ok out' ∧
    out.get? (january 5) = some r ∧ out'.get? (january 5) = some r' ∧ ¬ r.SameFor "AAPL" r' := by
  have hruns : (Formula.parse "stdev(nDaysAgo(1), currentDate)").toOption.any (fun formula =>
      (score (share [(3, 100), (4, 200), (5, 100)]).loader formula [january 5] ["AAPL"]
        false).toOption.any fun out =>
      (score (share [(3, 100), (4, 200), (5, 100)]).loader formula [january 4, january 5] ["AAPL"]
        false).toOption.any fun out' =>
      (out.get? (january 5)).any fun r => (out'.get? (january 5)).any fun r' =>
        (r.scores.get? "AAPL").isSome != (r'.scores.get? "AAPL").isSome) = true := by
    decide +kernel
  obtain ⟨formula, hparse, hruns⟩ := Except.exists_of_toOption_any hruns
  obtain ⟨out, hout, hruns⟩ := Except.exists_of_toOption_any hruns
  obtain ⟨out', hout', hruns⟩ := Except.exists_of_toOption_any hruns
  obtain ⟨r, hr, hruns⟩ := (Option.any_eq_true _ _).1 hruns
  obtain ⟨r', hr', hdiff⟩ := (Option.any_eq_true _ _).1 hruns
  refine ⟨formula, out, out', r, r', hparse, hout, hout', hr, hr', fun hsame => ?_⟩
  rw [hsame.1, bne_self_eq_false] at hdiff
  cases hdiff

end FactorPortfolio.Scoring
