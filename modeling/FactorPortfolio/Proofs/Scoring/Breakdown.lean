import FactorPortfolio.Formula.Parser
import FactorPortfolio.Proofs.Cache.Quotes
import FactorPortfolio.Proofs.Scoring.Batch
import Mathlib.Tactic.Common

/-!
# When scoring breaks down

Scoring ends with scores or with a fault that it reports, but for one way: the returns of a symbol
are cut out between the ends of its window, and that window may run backwards.  `breaks_down_iff`
says exactly when, and that a window without a volatility is a plain miss wherever the load comes
to an end.  `breaks_down_of_days_swapped` is a batch of one job that breaks down: a volatility whose
days are given in the wrong order, of a share with a price in the week before.
-/

namespace FactorPortfolio

variable {α : Type}

/-- There is neither a result nor a report of a fault. -/
def BreaksDown {β : Type} (x : Except (RunError α) β) : Prop :=
  ∃ symbol start stop, x = .error (.reversedWindow symbol start stop)

def isBreakdown {β : Type} : Except (RunError α) β → Bool
  | .error (.reversedWindow _ _ _) => true
  | _ => false

theorem isBreakdown_iff {β : Type} {x : Except (RunError α) β} :
    isBreakdown x = true ↔ BreaksDown x := by
  constructor
  · intro h
    cases x with
    | ok b => cases h
    | error e => cases e <;> first | exact ⟨_, _, _, rfl⟩ | cases h
  · rintro ⟨_, _, _, rfl⟩
    rfl

instance {β : Type} (x : Except (RunError α) β) : Decidable (BreaksDown x) :=
  decidable_of_iff _ isBreakdown_iff

def RunError.IsReport : RunError α → Prop
  | .reversedWindow _ _ _ => False
  | _ => True

section

variable {β γ : Type}

theorem not_breaksDown_iff {x : Except (RunError α) β} :
    ¬ BreaksDown x ↔ x.FailsWith RunError.IsReport := by
  constructor
  · rintro h e rfl
    cases e <;> first | trivial | exact h ⟨_, _, _, rfl⟩
  · rintro h ⟨symbol, start, stop, rfl⟩
    exact h _ rfl

theorem breaksDown_bind_iff {x : Except (RunError α) β} {f : β → Except (RunError α) γ} :
    BreaksDown (x >>= f) ↔ BreaksDown x ∨ ∃ b, x = .ok b ∧ BreaksDown (f b) := by
  cases x with
  | ok b => simp [Bind.bind, Except.bind, BreaksDown]
  | error e => simp [Bind.bind, Except.bind, BreaksDown]

/-- A step that reports its faults does not break down what stands before it. -/
theorem breaksDown_bind_report_iff {x : Except (RunError α) β} {f : β → Except (RunError α) γ}
    (hf : ∀ b, (f b).FailsWith RunError.IsReport) : BreaksDown (x >>= f) ↔ BreaksDown x := by
  rw [breaksDown_bind_iff, or_iff_left]
  rintro ⟨b, _, h⟩
  exact not_breaksDown_iff.2 (hf b) h

theorem breaksDown_mapM_iff {f : β → Except (RunError α) γ}
    (hf : ∀ b, BreaksDown (f b) ∨ ∃ c, f b = .ok c) (l : List β) :
    BreaksDown (l.mapM f) ↔ ∃ b ∈ l, BreaksDown (f b) := by
  induction l with
  | nil =>
    rw [List.mapM_nil]
    simp [BreaksDown, Pure.pure, Except.pure]
  | cons b l ih =>
    have hrest : ∀ c, BreaksDown (l.mapM f >>= fun cs => pure (c :: cs)) ↔
        BreaksDown (l.mapM f) := fun c =>
      breaksDown_bind_report_iff fun cs => Except.failsWith_ok (c :: cs)
    rw [List.mapM_cons, breaksDown_bind_iff, List.exists_mem_cons_iff, ← ih]
    simp only [hrest, exists_and_right]
    have := hf b
    tauto

theorem reports_liftStore (x : Except StoreError β) :
    (liftStore x : Except (RunError α) β).FailsWith RunError.IsReport := by
  intro e he
  cases x with
  | ok b => cases he
  | error e' =>
    cases he
    trivial

end

namespace Loader

theorem reports_fetchFor (l : Loader α) (r : Requirements) :
    (l.fetchFor r).FailsWith RunError.IsReport := by
  rw [fetchFor]
  split
  · exact Except.failsWith_ok _
  · rw [fetch_eq]
    refine (reports_liftStore _).bind fun points => ?_
    refine (reports_liftStore _).bind fun days => ?_
    exact (reports_liftStore _).bind fun quotes => Except.failsWith_ok _

theorem reports_record (l : Loader α) (p : PointRequest) :
    (l.record p).FailsWith RunError.IsReport := by
  rw [record]
  split
  · exact Except.failsWith_ok _
  · exact reports_liftStore _

variable [Scalar α]

theorem breaksDown_stdev?_iff (f : Fetched α) {windows : Table Symbol DateWindow} {w : DateWindow}
    (r : WindowRequest) (hw : windows.get? r.symbol = some w) :
    BreaksDown (f.stdev? windows r) ↔ f.series.contains r.symbol = true ∧ w.2 < w.1 := by
  rw [Fetched.stdev?_eq f r hw]
  split
  · rename_i h
    exact iff_of_true ⟨_, _, _, rfl⟩ h
  · rename_i h
    exact iff_of_false (not_breaksDown_iff.2 (Except.failsWith_ok _)) h

theorem breaksDown_or_exists_stdev? (f : Fetched α) (windows : Table Symbol DateWindow)
    (r : WindowRequest) : BreaksDown (f.stdev? windows r) ∨ ∃ x, f.stdev? windows r = .ok x := by
  rw [Fetched.stdev?]
  split
  · rw [dailyReturns]
    split
    · exact .inl ⟨_, _, _, rfl⟩
    · exact .inr ⟨_, rfl⟩
  · exact .inr ⟨_, rfl⟩

theorem breaksDown_fill_iff {l : Loader α} {r : Requirements} {fetched : Fetched α} :
    BreaksDown (l.fill r fetched) ↔
      ∃ w ∈ r.stdevs, BreaksDown (fetched.stdev? r.symbolWindows w) := by
  have hstdev : ∀ w, BreaksDown (fetched.stdev? r.symbolWindows w >>= fun x => pure (w, x)) ↔
      BreaksDown (fetched.stdev? r.symbolWindows w) := fun w =>
    breaksDown_bind_report_iff fun x => Except.failsWith_ok (w, x)
  rw [fill, breaksDown_bind_report_iff, breaksDown_mapM_iff]
  · simp only [hstdev]
  · intro w
    rw [hstdev]
    refine (breaksDown_or_exists_stdev? fetched r.symbolWindows w).imp_right ?_
    rintro ⟨x, hx⟩
    exact ⟨(w, x), by rw [hx]; rfl⟩
  · intro stdevs
    refine (Except.failsWith_mapM (fun p => ?_) r.fundamentals).bind fun records =>
      Except.failsWith_ok _
    exact (reports_record l p).bind fun x => Except.failsWith_ok (p, x)

/-- **A load breaks down on a volatility** of a symbol with fetched prices, all of whose requests
end before any of them starts. -/
theorem breaksDown_load_iff {l : Loader α} {r : Requirements} : BreaksDown (l.load r) ↔
    ∃ fetched, l.fetchFor r = .ok fetched ∧ ∃ symbol, r.Measures symbol ∧ r.RunsBackwards symbol ∧
      fetched.series.contains symbol = true := by
  rw [load_eq, breaksDown_bind_iff, or_iff_right (not_breaksDown_iff.2 (reports_fetchFor l r))]
  refine exists_congr fun fetched => and_congr_right fun _ => ?_
  rw [breaksDown_fill_iff]
  constructor
  · rintro ⟨⟨symbol, start, stop⟩, hlisted, hbreaks⟩
    obtain ⟨w, hw, _⟩ := Requirements.covers_stdev hlisted
    obtain ⟨hseries, hlt⟩ := (breaksDown_stdev?_iff fetched ⟨symbol, start, stop⟩ hw).1 hbreaks
    exact ⟨symbol, ⟨start, stop, hlisted⟩, (Requirements.window_lt_iff hw).1 hlt, hseries⟩
  · rintro ⟨symbol, ⟨start, stop, hlisted⟩, hback, hseries⟩
    obtain ⟨w, hw, _⟩ := Requirements.covers_stdev hlisted
    exact ⟨⟨symbol, start, stop⟩, hlisted, (breaksDown_stdev?_iff fetched _ hw).2
      ⟨hseries, (Requirements.window_lt_iff hw).2 hback⟩⟩

theorem stdev_of_load {l : Loader α} {r : Requirements} {cache : Cache α}
    (h : l.load r = .ok cache) : ∃ fetched, l.fetchFor r = .ok fetched ∧
      ∀ symbol start stop, r.Lists (.stdev symbol start stop) → ∃ w,
        r.symbolWindows.get? symbol = some w ∧
        cache.source.stdev symbol start stop =
          (annualizedStdev (returnsOf (Table.between (fetched.seriesOf symbol) w.1 w.2).entries)
            start stop).elim (.error (.cacheMiss (.stdev symbol start stop true))) .ok := by
  obtain ⟨fetched, hl⟩ := loaded_of_load h
  refine ⟨fetched, hl.fetch_eq, fun symbol start stop hlisted => ?_⟩
  obtain ⟨w, hw, _⟩ := Requirements.covers_stdev hlisted
  refine ⟨w, hw, ?_⟩
  obtain ⟨x, hx⟩ := hl.exists_stdev ⟨symbol, start, stop⟩ hlisted
  have hget : cache.stdevs.get? ⟨symbol, start, stop⟩ = x := by
    refine Option.ext fun v => ?_
    rw [hl.stdev, hx, Except.ok.injEq]
    exact and_iff_right hlisted
  have hrequested := (hl.requestedStdev ⟨symbol, start, stop⟩).2 hlisted
  rw [Fetched.stdev?_eq fetched ⟨symbol, start, stop⟩ hw] at hx
  split at hx
  · cases hx
  rw [Except.ok.inj hx]
  simp only [Cache.source, Cache.stdev, hget, hrequested]
  cases x <;> rfl

end Loader

namespace MemoryStore

def loaderWith (s : MemoryStore α) (fundamentals : Option (FundamentalsStore α))
    (quotes : Option (QuoteSource α)) : Loader α := ⟨s.priceStore, fundamentals, quotes⟩

variable {s : MemoryStore α} {fundamentals : Option (FundamentalsStore α)}
  {quotes : Option (QuoteSource α)} {r : Requirements}

theorem exists_stored_iff {symbol : Symbol} {low high : Date} (h : r.Wants symbol low high) :
    (∃ stored, (s.loaderWith fundamentals quotes).Stored r stored) ↔ s.failure = none := by
  constructor
  · rintro ⟨_, _, _, _, _, hpoints, _⟩
    exact (s.guarded_eq_ok_iff.1 hpoints).1
  · intro hs
    obtain ⟨overall, hoverall⟩ := Loader.exists_overallWindow h
    exact ⟨_, overall, _, _, hoverall, s.guarded_eq_ok_iff.2 ⟨hs, rfl⟩,
      s.guarded_eq_ok_iff.2 ⟨hs, rfl⟩, rfl⟩

variable [Scalar α]

/-- **A load from a store in memory breaks down** on a volatility of a symbol with a stored price
or a fresh quote, all of whose requests end before any of them starts. -/
theorem breaksDown_load_iff : BreaksDown ((s.loaderWith fundamentals quotes).load r) ↔
    s.failure = none ∧ ∃ answers,
      (s.loaderWith fundamentals quotes).quotesFor r.symbolWindows.keys = .ok answers ∧
      ∃ symbol, r.Measures symbol ∧ r.RunsBackwards symbol ∧
        ((∃ date, r.Reaches symbol date ∧ (s.series symbol).contains date = true) ∨
          ∃ q, answers.get? symbol = some q ∧
            ∀ date, r.Spans date → s.TradesOn date → date < q.date) := by
  have hk : (s.loaderWith fundamentals quotes).prices.Keeps s.series s.TradesOn :=
    s.keeps_priceStore
  rw [Loader.breaksDown_load_iff]
  constructor
  · rintro ⟨fetched, hfetched, symbol, hmeasures, hback, hseries⟩
    obtain ⟨low, high, hwants⟩ := hmeasures.wants
    obtain ⟨stored, answers, hstored, hanswers, rfl⟩ :=
      (Loader.fetchFor_eq_ok_iff hwants).1 hfetched
    refine ⟨(exists_stored_iff hwants).1 ⟨stored, hstored⟩, answers, hanswers, symbol, hmeasures,
      hback, ?_⟩
    rw [Fetched.contains_mergeQuotes, hstored.contains_series hk.points hwants] at hseries
    simp only [hstored.isFresh_iff hk] at hseries
    exact hseries.symm
  · rintro ⟨hs, answers, hanswers, symbol, hmeasures, hback, hseries⟩
    obtain ⟨low, high, hwants⟩ := hmeasures.wants
    obtain ⟨stored, hstored⟩ := (exists_stored_iff hwants).2 hs
    refine ⟨_, (Loader.fetchFor_eq_ok_iff hwants).2 ⟨stored, answers, hstored, hanswers, rfl⟩,
      symbol, hmeasures, hback, ?_⟩
    rw [Fetched.contains_mergeQuotes, hstored.contains_series hk.points hwants]
    simp only [hstored.isFresh_iff hk]
    exact hseries.symm

end MemoryStore

namespace Scoring

theorem reports_collect (batch : List Job) (arrived : List (Outcome α)) :
    (collect batch arrived).FailsWith RunError.IsReport := by
  intro e he
  rw [collect] at he
  split at he
  · cases he
    trivial
  · split at he
    · cases he
      trivial
    · cases he

variable [Scalar α]

theorem breaksDown_score_iff {l : Loader α} {formula : Formula α} {days : List Date}
    {symbols : List Symbol} {cancelled : Bool} :
    BreaksDown (score l formula days symbols cancelled) ↔
      jobs days symbols ≠ [] ∧ BreaksDown (l.load (formula.requirements (jobs days symbols))) := by
  by_cases hjobs : jobs days symbols = []
  · rw [score_of_jobs_eq_nil hjobs]
    refine iff_of_false ?_ fun h => h.1 hjobs
    rintro ⟨_, _, _, h⟩
    cases h
  · have hrun : ∀ cache : Cache α, (runJobs cache.source formula (jobs days symbols)
        cancelled).FailsWith RunError.IsReport := fun cache => reports_collect _ _
    rw [score_of_jobs_ne_nil hjobs, breaksDown_bind_report_iff hrun]
    exact (and_iff_right hjobs).symm

/-- **When scoring from a store in memory breaks down**: exactly if the dry run lists a volatility
of a symbol all of whose requests end before any of them starts, and the symbol has a stored price
that they reach or a quote that is merged.  Otherwise the load ends with a fault of a store or with
a cache, in which a window has its volatility or is a miss that was asked for. -/
theorem breaks_down_iff (s : MemoryStore α) (fundamentals : Option (FundamentalsStore α))
    (quotes : Option (QuoteSource α)) :
    (∀ formula days symbols cancelled,
      BreaksDown (score (s.loaderWith fundamentals quotes) formula days symbols cancelled) ↔
        jobs days symbols ≠ [] ∧ BreaksDown ((s.loaderWith fundamentals quotes).load
          (formula.requirements (jobs days symbols)))) ∧
    ∀ r : Requirements,
      (BreaksDown ((s.loaderWith fundamentals quotes).load r) ↔
        s.failure = none ∧ ∃ answers,
          (s.loaderWith fundamentals quotes).quotesFor r.symbolWindows.keys = .ok answers ∧
          ∃ symbol, r.Measures symbol ∧ r.RunsBackwards symbol ∧
            ((∃ date, r.Reaches symbol date ∧ (s.series symbol).contains date = true) ∨
              ∃ q, answers.get? symbol = some q ∧
                ∀ date, r.Spans date → s.TradesOn date → date < q.date)) ∧
      (BreaksDown ((s.loaderWith fundamentals quotes).load r) ∨
        (∃ e, (s.loaderWith fundamentals quotes).load r = .error (.store e)) ∨
        ∃ cache fetched, (s.loaderWith fundamentals quotes).load r = .ok cache ∧
          (s.loaderWith fundamentals quotes).fetchFor r = .ok fetched ∧
          ∀ symbol start stop, r.Lists (.stdev symbol start stop) → ∃ w,
            r.symbolWindows.get? symbol = some w ∧
            cache.source.stdev symbol start stop =
              (annualizedStdev (returnsOf (Table.between (fetched.seriesOf symbol) w.1 w.2).entries)
                start stop).elim (.error (.cacheMiss (.stdev symbol start stop true))) .ok) := by
  refine ⟨fun _ _ _ _ => breaksDown_score_iff, fun r =>
    ⟨MemoryStore.breaksDown_load_iff, ?_⟩⟩
  cases hload : (s.loaderWith fundamentals quotes).load r with
  | ok cache =>
    obtain ⟨fetched, hfetched, hstdev⟩ := Loader.stdev_of_load hload
    exact .inr (.inr ⟨cache, fetched, rfl, hfetched, hstdev⟩)
  | error e =>
    have hkind := Loader.failsWith_load _ r e hload
    cases e <;> first
      | exact hkind.elim
      | exact .inl ⟨_, _, _, rfl⟩
      | exact .inr (.inl ⟨_, rfl⟩)

/-- The volatility from the day itself to three days before it has a window that runs backwards,
and the share has a price in the week before that. -/
theorem breaks_down_of_days_swapped : ∃ formula : Formula Float,
    Formula.parse "stdev(currentDate, nDaysAgo(3))" = .ok formula ∧
    BreaksDown (score (share [(5, 100)]).loader formula [january 10] ["AAPL"] false) := by
  have hbreaks : (Formula.parse "stdev(currentDate, nDaysAgo(3))").toOption.any (fun formula =>
      decide (BreaksDown (score (share [(5, 100)]).loader formula [january 10] ["AAPL"] false))) =
        true := by
    decide +kernel
  obtain ⟨formula, hparse, hbreaks⟩ := Except.exists_of_toOption_any hbreaks
  exact ⟨formula, hparse, of_decide_eq_true hbreaks⟩

end Scoring

end FactorPortfolio
