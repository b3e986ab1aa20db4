import FactorPortfolio.Formula.Parser
import FactorPortfolio.Proofs.Scoring.Compared
import Mathlib.Tactic.Common

/-!
# What is known on a day

A formula that looks back asks for no date after its day, and a price or a record of a day is the
same whatever is stored later.  A volatility is not: it is taken over what is known, but whether it
is there at all depends on the last return of the batch's window of its symbol, and another job can
make this window reach beyond the day.

`no_look_ahead` says that this is the only way in which a day can know of what comes after it, and
that it is closed where a price is stored in the last week of every window.
`look_ahead_of_stdev` is a day that is scored for a price of four days later.
-/

namespace FactorPortfolio.Scoring

variable {α : Type} [Scalar α] {m m' : Market α} {d : Date} {formula : Formula α}
  {batch : List Job} {job : Job}

theorem upTo_of_asked (hback : formula.tree.looksBack = true) (hd : job.date ≤ d)
    {source : MetricSource α} {q : Question}
    (hq : q ∈ (formula.evaluate job.symbol job.date).asked source) :
    q.symbol = job.symbol ∧ q.UpTo d := by
  have hwithin := formula.within_evaluate job.symbol job.date (Expr.within_of_looksBack hback)
  exact ⟨(hwithin.asked hq).1, (hwithin.asked hq).2.mono hd⟩

/-- Two runs of a job up to `d` differ only by a volatility that one of them misses. -/
theorem run_eq_of_isSome (h : m.upTo d = m'.upTo d) (hback : formula.tree.looksBack = true)
    (hd : job.date ≤ d) (hsome : ∀ start stop, AsksVolatility m formula batch job start stop →
      (batchVolatility m formula batch job.symbol start stop).isSome =
        (batchVolatility m' formula batch job.symbol start stop).isSome) :
    (formula.evaluate job.symbol job.date).run (marketSource m formula batch) =
      (formula.evaluate job.symbol job.date).run (marketSource m' formula batch) := by
  apply Reading.run_congr
  intro q hq
  obtain ⟨hsymbol, hupTo⟩ := upTo_of_asked hback hd hq
  refine Market.agree_source h hupTo ?_
  rintro symbol start stop rfl
  obtain rfl : symbol = job.symbol := hsymbol
  exact Market.volatility_eq_of_isSome h hupTo.2 (hsome start stop hq)

theorem isSome_eq_of_sameFor (h : m.upTo d = m'.upTo d) (hback : formula.tree.looksBack = true)
    (hjob : job ∈ batch) (hd : job.date ≤ d)
    (hsame : (resultOf (outcomes (marketSource m formula batch) formula batch) job.date).SameFor
      job.symbol (resultOf (outcomes (marketSource m' formula batch) formula batch) job.date))
    {start stop : Date} (hq : AsksVolatility m formula batch job start stop) :
    (batchVolatility m formula batch job.symbol start stop).isSome =
      (batchVolatility m' formula batch job.symbol start stop).isSome := by
  refine Market.isSome_eq_of_run (formula.within_evaluate job.symbol job.date
    (Expr.within_eval_symbol _)) (fun q hq => ?_) (fun symbol start stop hq _ hsome => ?_)
    (fun e he => run_eq_error_iff_of_sameFor hjob hjob hsame he) hq
  · exact Market.agree_source h (upTo_of_asked hback hd hq).2
  · exact Market.volatility_eq_of_isSome h (upTo_of_asked hback hd hq).2.2 hsome

/-- **A day comes out the same for stores that are alike up to it exactly if its jobs find the same
volatilities missing.**  So it does if a price is stored in the last week of every window that they
ask for. -/
theorem no_look_ahead {l l' : Loader α} {m m' : Market α} (hl : l.Keeps m) (hl' : l'.Keeps m')
    {d : Date} (h : m.upTo d = m'.upTo d) {formula : Formula α}
    (hback : formula.tree.looksBack = true) {days : List Date} {symbols : List Symbol}
    {out out' : DailyScores α} (hout : score l formula days symbols false = .ok out)
    (hout' : score l' formula days symbols false = .ok out') {day : Date} (hday : day ∈ days)
    (hd : day ≤ d) :
    (out.get? day = out'.get? day ↔ ∀ symbol ∈ symbols, ∀ start stop,
      AsksVolatility m formula (jobs days symbols) ⟨day, symbol⟩ start stop →
      (batchVolatility m formula (jobs days symbols) symbol start stop).isSome =
        (batchVolatility m' formula (jobs days symbols) symbol start stop).isSome) ∧
    ((∀ symbol ∈ symbols, ∀ start stop,
      AsksVolatility m formula (jobs days symbols) ⟨day, symbol⟩ start stop →
      ∃ date x, (m.prices symbol).get? date = some x ∧ stop.back gapDays ≤ date ∧ date ≤ stop) →
      out.get? day = out'.get? day) := by
  have hiff : out.get? day = out'.get? day ↔ ∀ symbol ∈ symbols, ∀ start stop,
      AsksVolatility m formula (jobs days symbols) ⟨day, symbol⟩ start stop →
      (batchVolatility m formula (jobs days symbols) symbol start stop).isSome =
        (batchVolatility m' formula (jobs days symbols) symbol start stop).isSome := by
    rw [get?_score_of_mem hl hout hday, get?_score_of_mem hl' hout' hday, Option.some.injEq]
    constructor
    · intro heq symbol hsymbol start stop hq
      exact isSome_eq_of_sameFor h hback (mem_jobs.2 ⟨hday, hsymbol⟩) hd (heq ▸ .refl symbol _) hq
    · intro hsome
      apply resultOf_congr
      rintro job hjob rfl
      exact run_eq_of_isSome h hback hd (hsome job.symbol (mem_jobs.1 hjob).2)
  refine ⟨hiff, ?_⟩
  intro hrecent
  rw [hiff]
  intro symbol hsymbol start stop hq
  obtain ⟨date, x, hx, hlow, hhigh⟩ := hrecent symbol hsymbol start stop hq
  have hjob : ⟨day, symbol⟩ ∈ jobs days symbols := mem_jobs.2 ⟨hday, hsymbol⟩
  obtain ⟨w, hw, hstart, hstop⟩ :=
    Requirements.covers_stdev (lists_of_asked_market hl hout hjob hq)
  have hupTo := (upTo_of_asked hback hd hq).2.2
  exact Market.isSome_volatility_of_recent h hupTo hw hstart hstop hx hlow hhigh

/-- With a price of the day before, a day comes out the same whatever the share costs later. -/
theorem no_look_ahead_lastTwentyDays : ∃ out out',
    score (share [(1, 100), (2, 200), (20, 100)]).loader lastTwentyDays [january 21, january 41]
      ["AAPL"] false = .ok out ∧
    score (share [(1, 100), (2, 200), (20, 100), (25, 300)]).loader lastTwentyDays
      [january 21, january 41] ["AAPL"] false = .ok out' ∧
    out.get? (january 21) = out'.get? (january 21) := by
  have hscored : (score (share [(1, 100), (2, 200), (20, 100)]).loader lastTwentyDays
      [january 21, january 41] ["AAPL"] false).toOption.any (fun _ => true) = true := by
    decide +kernel
  have hscored' : (score (share [(1, 100), (2, 200), (20, 100), (25, 300)]).loader lastTwentyDays
      [january 21, january 41] ["AAPL"] false).toOption.any (fun _ => true) = true := by
    decide +kernel
  obtain ⟨out, hout, _⟩ := Except.exists_of_toOption_any hscored
  obtain ⟨out', hout', _⟩ := Except.exists_of_toOption_any hscored'
  have hasked : (lastTwentyDays.evaluate "AAPL" (january 21)).asked (marketSource
      (share [(1, 100), (2, 200), (20, 100)]).market lastTwentyDays
        (jobs [january 21, january 41] ["AAPL"])) = [.stdev "AAPL" (january 1) (january 21)] := by
    decide +kernel
  refine ⟨out, out', hout, hout', (no_look_ahead (MemoryStore.keeps_loader _)
    (MemoryStore.keeps_loader _) (MemoryStore.upTo_market_insertPrice _ "AAPL"
      (show january 21 < january 25 by decide) 300).symm rfl hout hout' List.mem_cons_self
    (Date.le_refl _)).2 fun symbol hsymbol start stop hq => ?_⟩
  obtain rfl := List.mem_singleton.1 hsymbol
  rw [AsksVolatility, hasked, List.mem_singleton] at hq
  cases hq
  exact ⟨january 20, 100, by decide +kernel, by decide, by decide⟩

/-- **A price of 25 January brings 21 January a score.**  The share is quoted from 1 to 4 January
only, too early for a volatility of the twenty days up to 21 January; but with the window of another
day in the batch the later price is enough to let it pass. -/
theorem look_ahead_of_stdev : ∃ formula : Formula Float, ∃ out out',
    Formula.parse "stdev(nDaysAgo(20), currentDate)" = .ok formula ∧
    formula.tree.looksBack = true ∧
    (share [(1, 100), (2, 200), (3, 100), (4, 200)]).market.upTo (january 21) =
      (share [(1, 100), (2, 200), (3, 100), (4, 200), (25, 100)]).market.upTo (january 21) ∧
    score (share [(1, 100), (2, 200), (3, 100), (4, 200)]).loader formula
      [january 21, january 41] ["AAPL"] false = .ok out ∧
    score (share [(1, 100), (2, 200), (3, 100), (4, 200), (25, 100)]).loader formula
      [january 21, january 41] ["AAPL"] false = .ok out' ∧
    out.get? (january 21) ≠ out'.get? (january 21) := by
  have hruns : (Formula.parse "stdev(nDaysAgo(20), currentDate)").toOption.any (fun formula =>
      formula.tree.looksBack &&
      (score (share [(1, 100), (2, 200), (3, 100), (4, 200)]).loader formula
        [january 21, january 41] ["AAPL"] false).toOption.any fun out =>
      (score (share [(1, 100), (2, 200), (3, 100), (4, 200), (25, 100)]).loader formula
        [january 21, january 41] ["AAPL"] false).toOption.any fun out' =>
      (out.get? (january 21)).any fun r => (out'.get? (january 21)).any fun r' =>
        (r.scores.get? "AAPL").isSome != (r'.scores.get? "AAPL").isSome) = true := by
    decide +kernel
  obtain ⟨formula, hparse, hruns⟩ := Except.exists_of_toOption_any hruns
  obtain ⟨hback, hruns⟩ := Bool.and_eq_true_iff.1 hruns
  obtain ⟨out, hout, hruns⟩ := Except.exists_of_toOption_any hruns
  obtain ⟨out', hout', hruns⟩ := Except.exists_of_toOption_any hruns
  obtain ⟨r, hr, hruns⟩ := (Option.any_eq_true _ _).1 hruns
  obtain ⟨r', hr', hdiff⟩ := (Option.any_eq_true _ _).1 hruns
  refine ⟨formula, out, out', hparse, hback, (MemoryStore.upTo_market_insertPrice _ "AAPL"
    (show january 21 < january 25 by decide) 100).symm, hout, hout', fun heq => ?_⟩
  obtain rfl := Option.some.inj (hr.symm.trans (heq.trans hr'))
  rw [bne_self_eq_false] at hdiff
  cases hdiff

end FactorPortfolio.Scoring
