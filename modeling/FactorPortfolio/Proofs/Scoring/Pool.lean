import FactorPortfolio.Proofs.Scoring.Arrival
import Mathlib.Algebra.BigOperators.Group.List.Basic
import Mathlib.Algebra.Order.Group.Multiset
import Mathlib.Logic.Relation
import Mathlib.Tactic.Abel

/-!
# Workers

A batch is evaluated by several workers.  Each takes the next job of a queue, evaluates it and sends
the outcome; one loop merges the outcomes as they arrive.  A worker that finds the engine at fault
calls off the work: the others leave when they see it, each before one of its next jobs.  `Step` is
one move of one of them, and a run is any sequence of moves, so that workers may be as fast or slow
as they like.

* `Step.work_lt`, `exists_step`: every run comes to its end, where no worker is left and all that
  was sent is merged.
* `Step.exists_taken`, `Balanced.step`: a move loses no outcome and makes up none, and the work is
  called off only for a fault.
* `result_of_every_run`: what the batch comes to at the end does not depend on the run.
-/

namespace FactorPortfolio.Scoring

variable {α : Type} [Scalar α]

def outcome (source : MetricSource α) (formula : Formula α) (job : Job) : Outcome α :=
  (job, (formula.evaluate job.symbol job.date).run source)

inductive Worker (α : Type) where
  /-- About to look whether the work is called off. -/
  | looking
  /-- About to take a job. -/
  | asking
  | holding (job : Job)
  /-- About to send what came of a job. -/
  | sending (o : Outcome α)
  | gone

/-- What the workers and the loop that merges have in common. -/
structure Shared (α : Type) where
  queue : List Job
  stopped : Bool
  /-- The outcomes on their way to the loop, the first one to arrive first. -/
  sent : List (Outcome α)
  merged : List (Outcome α)

structure Pool (α : Type) where
  shared : Shared α
  workers : List (Worker α)

/-- A move of one worker.  It may go on although the work is called off, if it has not yet seen
it. -/
inductive Move (source : MetricSource α) (formula : Formula α) :
    Worker α → Shared α → Worker α → Shared α → Prop
  | goOn (s : Shared α) : Move source formula .looking s .asking s
  | leave {s : Shared α} (stopped : s.stopped = true) : Move source formula .looking s .gone s
  | take {s : Shared α} {job : Job} {rest : List Job} (queue : s.queue = job :: rest) :
      Move source formula .asking s (.holding job) { s with queue := rest }
  | finish {s : Shared α} (queue : s.queue = []) : Move source formula .asking s .gone s
  | evaluate (s : Shared α) (job : Job) :
      Move source formula (.holding job) s (.sending (outcome source formula job))
        { s with stopped := s.stopped || (outcome source formula job).isInternal }
  | send (s : Shared α) (o : Outcome α) :
      Move source formula (.sending o) s .looking { s with sent := s.sent ++ [o] }

/-- A move of one of the workers or of the loop that merges. -/
inductive Step (source : MetricSource α) (formula : Formula α) : Pool α → Pool α → Prop
  | move {s s' : Shared α} {w w' : Worker α} (before after : List (Worker α))
      (h : Move source formula w s w' s') :
      Step source formula ⟨s, before ++ w :: after⟩ ⟨s', before ++ w' :: after⟩
  | merge {s : Shared α} {o : Outcome α} {rest : List (Outcome α)} (workers : List (Worker α))
      (sent : s.sent = o :: rest) :
      Step source formula ⟨s, workers⟩ ⟨{ s with sent := rest, merged := s.merged ++ [o] }, workers⟩

namespace Pool

/-- A batch before the first move, with no more workers than jobs. -/
def start (batch : List Job) (workers : Nat) : Pool α :=
  ⟨⟨batch, false, [], []⟩, .replicate (min workers batch.length) .looking⟩

def Ended (p : Pool α) : Prop := (∀ w ∈ p.workers, w = .gone) ∧ p.shared.sent = []

def result (p : Pool α) (batch : List Job) : Except (RunError α) (DailyScores α) :=
  collect batch p.shared.merged

end Pool

def Reaches (source : MetricSource α) (formula : Formula α) (batch : List Job) (workers : Nat) :
    Pool α → Prop :=
  Relation.ReflTransGen (Step source formula) (.start batch workers)

variable {source : MetricSource α} {formula : Formula α} {batch : List Job} {workers : Nat}
  {p p' : Pool α}

/-! ### Runs end -/

/-- How many moves a worker has left if it gets no other job, counting the merging of its
outcome. -/
def Worker.moves : Worker α → Nat
  | looking => 2
  | asking => 1
  | holding _ => 5
  | sending _ => 4
  | gone => 0

/-- How many moves are left at most: each job in the queue is good for five. -/
def Pool.work (p : Pool α) : Nat :=
  5 * p.shared.queue.length + p.shared.sent.length + (p.workers.map Worker.moves).sum

theorem Step.work_lt (h : Step source formula p p') : p'.work < p.work := by
  cases h with
  | merge workers sent => simp [Pool.work, sent]
  | move before after h =>
    cases h with
    | goOn s => simp [Pool.work, Worker.moves]
    | leave stopped => simp [Pool.work, Worker.moves]
    | take queue => simp [Pool.work, Worker.moves, queue]; omega
    | finish queue => simp [Pool.work, Worker.moves]
    | evaluate s job => simp [Pool.work, Worker.moves]
    | send s o => simp [Pool.work, Worker.moves]; omega

/-- **A run goes on until all is merged.** -/
theorem exists_step (source : MetricSource α) (formula : Formula α) (h : ¬ p.Ended) :
    ∃ p', Step source formula p p' := by
  obtain ⟨s, workers⟩ := p
  cases hsent : s.sent with
  | cons o rest => exact ⟨_, .merge workers hsent⟩
  | nil =>
    obtain ⟨w, hw, hgone⟩ : ∃ w ∈ workers, w ≠ .gone := by
      by_contra hall
      push Not at hall
      exact h ⟨hall, hsent⟩
    obtain ⟨before, after, rfl⟩ := List.append_of_mem hw
    cases w with
    | looking => exact ⟨_, .move before after (.goOn s)⟩
    | asking =>
      cases hqueue : s.queue with
      | nil => exact ⟨_, .move before after (.finish hqueue)⟩
      | cons job rest => exact ⟨_, .move before after (.take hqueue)⟩
    | holding job => exact ⟨_, .move before after (.evaluate s job)⟩
    | sending o => exact ⟨_, .move before after (.send s o)⟩
    | gone => exact absurd rfl hgone

theorem exists_ended (p : Pool α) :
    ∃ p', Relation.ReflTransGen (Step source formula) p p' ∧ p'.Ended := by
  induction hn : p.work using Nat.strong_induction_on generalizing p with
  | _ n ih =>
    by_cases hended : p.Ended
    · exact ⟨p, .refl, hended⟩
    · obtain ⟨p₁, hstep⟩ := exists_step source formula hended
      obtain ⟨p', hreach, hended'⟩ := ih p₁.work (hn ▸ hstep.work_lt) p₁ rfl
      exact ⟨p', hreach.head hstep, hended'⟩

theorem not_forever (run : Nat → Pool α) : ¬ ∀ n, Step source formula (run n) (run (n + 1)) := by
  intro h
  have hwork : ∀ n, (run n).work + n ≤ (run 0).work := by
    intro n
    induction n with
    | zero => exact le_rfl
    | succ n ih =>
      have hlt := (h n).work_lt
      omega
  have hlast := hwork ((run 0).work + 1)
  omega

/-! ### No outcome is lost or made up -/

/-- The outcome that a worker is about to bring. -/
def Worker.due (source : MetricSource α) (formula : Formula α) : Worker α → Multiset (Outcome α)
  | holding job => {outcome source formula job}
  | sending o => {o}
  | _ => 0

/-- The outcomes of all jobs that have been taken. -/
def Pool.inHand (source : MetricSource α) (formula : Formula α) (p : Pool α) :
    Multiset (Outcome α) :=
  p.shared.merged + p.shared.sent + (p.workers.map (Worker.due source formula)).sum

theorem outcomes_singleton (source : MetricSource α) (formula : Formula α) (job : Job) :
    outcomes source formula [job] = [outcome source formula job] := rfl

theorem outcomes_append (source : MetricSource α) (formula : Formula α) (jobs jobs' : List Job) :
    outcomes source formula (jobs ++ jobs') =
      outcomes source formula jobs ++ outcomes source formula jobs' :=
  List.map_append

/-- **A move takes the next job into hand, or leaves what is in hand as it is.** -/
theorem Step.exists_taken (h : Step source formula p p') : ∃ taken,
    p.shared.queue = taken ++ p'.shared.queue ∧
      p'.inHand source formula = p.inHand source formula + outcomes source formula taken := by
  cases h with
  | merge workers sent =>
    refine ⟨[], rfl, ?_⟩
    simp only [Pool.inHand, sent, ← Multiset.coe_add, ← Multiset.cons_coe, ← Multiset.singleton_add,
      outcomes, List.map_nil, Multiset.coe_nil]
    abel
  | move before after h =>
    cases h with
    | goOn s => exact ⟨[], rfl, by simp [Pool.inHand, Worker.due, outcomes]⟩
    | leave stopped => exact ⟨[], rfl, by simp [Pool.inHand, Worker.due, outcomes]⟩
    | @take s job rest queue =>
      refine ⟨[job], queue, ?_⟩
      simp only [Pool.inHand, Worker.due, outcomes_singleton, List.map_append, List.map_cons,
        List.sum_append, List.sum_cons, Multiset.coe_singleton]
      abel
    | finish queue => exact ⟨[], rfl, by simp [Pool.inHand, Worker.due, outcomes]⟩
    | evaluate s job => exact ⟨[], rfl, by simp [Pool.inHand, Worker.due, outcomes]⟩
    | send s o =>
      refine ⟨[], rfl, ?_⟩
      simp only [Pool.inHand, Worker.due, outcomes, List.map_append, List.map_cons, List.map_nil,
        List.sum_append, List.sum_cons, ← Multiset.coe_add, Multiset.coe_singleton,
        Multiset.coe_nil]
      abel

/-- The work is called off for good, and only for a fault that is in hand. -/
theorem Step.stopped_iff (h : Step source formula p p') :
    (p.shared.stopped = true → p'.shared.stopped = true) ∧
      (p'.shared.stopped = true → p.shared.stopped = true ∨
        ∃ o ∈ p'.inHand source formula, o.isInternal = true) := by
  cases h with
  | merge workers sent => exact ⟨id, .inl⟩
  | move before after h =>
    cases h with
    | goOn s => exact ⟨id, .inl⟩
    | leave stopped => exact ⟨id, .inl⟩
    | take queue => exact ⟨id, .inl⟩
    | finish queue => exact ⟨id, .inl⟩
    | send s o => exact ⟨id, .inl⟩
    | evaluate s job =>
      simp only [Bool.or_eq_true]
      refine ⟨.inl, Or.imp_right fun hi => ⟨outcome source formula job, ?_, hi⟩⟩
      simp [Pool.inHand, Worker.due]

theorem Step.gone (h : Step source formula p p') (hgone : .gone ∈ p'.workers) :
    .gone ∈ p.workers ∨ p.shared.stopped = true ∨ p.shared.queue = [] := by
  cases h with
  | merge workers sent => exact .inl hgone
  | move before after h =>
    cases h with
    | leave stopped => exact .inr (.inl stopped)
    | finish queue => exact .inr (.inr queue)
    | goOn s => exact .inl (by simpa using hgone)
    | take queue => exact .inl (by simpa using hgone)
    | evaluate s job => exact .inl (by simpa using hgone)
    | send s o => exact .inl (by simpa using hgone)

theorem Step.length_workers (h : Step source formula p p') :
    p'.workers.length = p.workers.length := by
  cases h with
  | merge workers sent => rfl
  | move before after h => simp

/-- What has been taken, and what is still to be taken, are the outcomes of the batch; the work is
called off only for a fault that is in hand, and no worker leaves without a cause. -/
structure Balanced (source : MetricSource α) (formula : Formula α) (batch : List Job)
    (workers : Nat) (p : Pool α) : Prop where
  size : p.workers.length = min workers batch.length
  all : p.inHand source formula + outcomes source formula p.shared.queue =
    outcomes source formula batch
  stopped : p.shared.stopped = true → ∃ o ∈ p.inHand source formula, o.isInternal = true
  gone : .gone ∈ p.workers → p.shared.stopped = true ∨ p.shared.queue = []

theorem balanced_start (source : MetricSource α) (formula : Formula α) (batch : List Job)
    (workers : Nat) : Balanced source formula batch workers (.start batch workers) where
  size := List.length_replicate
  all := by simp [Pool.start, Pool.inHand, Worker.due]
  stopped := nofun
  gone h := by
    rw [Pool.start, List.mem_replicate] at h
    cases h.2

/-- **A move keeps the balance.** -/
theorem Balanced.step (h : Balanced source formula batch workers p)
    (hstep : Step source formula p p') : Balanced source formula batch workers p' := by
  obtain ⟨taken, hqueue, htaken⟩ := hstep.exists_taken
  obtain ⟨hkept, hstopped⟩ := hstep.stopped_iff
  constructor
  case size => rw [hstep.length_workers, h.size]
  case all =>
    rw [← h.all, htaken, hqueue, outcomes_append, ← Multiset.coe_add, add_assoc]
  case stopped =>
    intro hs
    rcases hstopped hs with hs | hfault
    · obtain ⟨o, ho, hi⟩ := h.stopped hs
      exact ⟨o, htaken ▸ Multiset.mem_add.2 (.inl ho), hi⟩
    · exact hfault
  case gone =>
    intro hgone
    have hcause : p.shared.stopped = true ∨ p.shared.queue = [] :=
      (hstep.gone hgone).elim h.gone id
    refine hcause.imp hkept fun hempty => ?_
    rw [hempty] at hqueue
    exact (List.append_eq_nil_iff.1 hqueue.symm).2

theorem Reaches.balanced (h : Reaches source formula batch workers p) :
    Balanced source formula batch workers p := by
  induction h with
  | refl => exact balanced_start source formula batch workers
  | tail _ hstep ih => exact ih.step hstep

/-! ### What a run comes to -/

theorem Pool.Ended.inHand_eq (h : p.Ended) : p.inHand source formula = p.shared.merged := by
  have hdue : (p.workers.map (Worker.due source formula)).sum = 0 := by
    refine List.sum_eq_zero fun x hx => ?_
    obtain ⟨w, hw, rfl⟩ := List.mem_map.1 hx
    rw [h.1 w hw]
    rfl
  rw [inHand, hdue, h.2]
  simp

/-- At the end a fault of the engine is merged, or else all outcomes are, in some order. -/
theorem Balanced.of_ended (h : Balanced source formula batch workers p) (hended : p.Ended)
    (hworkers : 0 < workers) : (∃ o ∈ p.shared.merged, o.isInternal = true) ∨
      p.shared.merged.Perm (outcomes source formula batch) := by
  have hall := h.all
  rw [hended.inHand_eq] at hall
  cases hp : p.workers with
  | nil =>
    have hsize := h.size
    rw [hp, List.length_nil] at hsize
    obtain rfl : batch = [] := List.length_eq_zero_iff.1 (by omega)
    have hlength := congrArg Multiset.card hall
    rw [Multiset.card_add, Multiset.coe_card, Multiset.coe_card, Multiset.coe_card, outcomes,
      outcomes, List.map_nil, List.length_nil] at hlength
    rw [List.length_eq_zero_iff.1 (Nat.eq_zero_of_add_eq_zero_right hlength)]
    exact .inr .nil
  | cons w workers =>
    have hgone : .gone ∈ p.workers := by
      rw [← hended.1 w (hp ▸ List.mem_cons_self), hp]
      exact List.mem_cons_self
    rcases h.gone hgone with hstopped | hqueue
    · obtain ⟨o, ho, hi⟩ := h.stopped hstopped
      rw [hended.inHand_eq] at ho
      exact .inl ⟨o, ho, hi⟩
    · rw [hqueue] at hall
      exact .inr (Multiset.coe_eq_coe.1 (by simpa [outcomes] using hall))

theorem Balanced.mem_merged (h : Balanced source formula batch workers p) (hended : p.Ended)
    {o : Outcome α} (ho : o ∈ p.shared.merged) : o ∈ outcomes source formula batch := by
  have hmem : o ∈ p.inHand source formula + outcomes source formula p.shared.queue := by
    rw [hended.inHand_eq]
    exact Multiset.mem_add.2 (.inl ho)
  rwa [h.all] at hmem

/-- **Without a fault all outcomes are merged at the end**, in some order. -/
theorem Balanced.merged_perm (h : Balanced source formula batch workers p) (hended : p.Ended)
    (hworkers : 0 < workers)
    (hinternal : ∀ o ∈ outcomes source formula batch, o.isInternal = false) :
    p.shared.merged.Perm (outcomes source formula batch) := by
  refine (h.of_ended hended hworkers).resolve_left ?_
  rintro ⟨o, ho, hi⟩
  rw [hinternal o (h.mem_merged hended ho)] at hi
  cases hi

/-- **With a fault one is merged at the end**, however much of the batch is not evaluated. -/
theorem Balanced.exists_internal (h : Balanced source formula batch workers p) (hended : p.Ended)
    (hworkers : 0 < workers)
    (hinternal : ∃ o ∈ outcomes source formula batch, o.isInternal = true) :
    ∃ o ∈ p.shared.merged, o.isInternal = true := by
  rcases h.of_ended hended hworkers with hfault | hperm
  · exact hfault
  · obtain ⟨o, ho, hi⟩ := hinternal
    exact ⟨o, hperm.mem_iff.2 ho, hi⟩

/-- A batch is scored: each of its days has a result, in which every pair of the batch has its
place, no other pair leaves a trace, and failures are in order of their symbols. -/
structure Complete (source : MetricSource α) (formula : Formula α) (batch : List Job)
    (out : DailyScores α) : Prop where
  days : ∀ date, date ∈ out.keys ↔ date ∈ batch.map Job.date
  classed : ∀ job ∈ batch, ∃ r, out.get? job.date = some r ∧ Classed source formula batch r job
  neither : ∀ job ∈ batch, ∀ r, out.get? job.date = some r →
    ((r.scores.get? job.symbol = none ∧ r.errors.filter (fun x => x.symbol = job.symbol) = []) ↔
      ∃ e, (formula.evaluate job.symbol job.date).run source = .error e ∧ e.isMissingData = true)
  exclusive : ∀ job ∈ batch, ∀ r, out.get? job.date = some r →
    r.scores.get? job.symbol = none ∨ r.errors.filter (fun x => x.symbol = job.symbol) = []
  unasked : ∀ job ∉ batch, ∀ r, out.get? job.date = some r →
    r.scores.get? job.symbol = none ∧ r.errors.filter (fun x => x.symbol = job.symbol) = []
  sorted : ∀ date r, out.get? date = some r →
    r.errors.Pairwise fun a b => (compare a.symbol b.symbol).isLE = true

theorem complete_of_collect {out : DailyScores α}
    (h : collect batch (outcomes source formula batch) = .ok out) :
    Complete source formula batch out := by
  obtain ⟨hinternal, _, hdays⟩ := (collect_eq_ok_iff fun o ho => (mem_outcomes.1 ho).1).1 h
  have hday : ∀ date r, out.get? date = some r →
      date ∈ batch.map Job.date ∧ r = resultOf (outcomes source formula batch) date := by
    intro date r hr
    rw [hdays, Option.ite_none_right_eq_some] at hr
    exact ⟨hr.1, (Option.some.inj hr.2).symm⟩
  have hclassed : ∀ job ∈ batch, Classed source formula batch
      (resultOf (outcomes source formula batch) job.date) job := fun job => classed hinternal
  constructor
  case days =>
    intro date
    rw [Table.mem_keys_iff, Table.contains, hdays]
    split <;> simp_all
  case classed =>
    intro job hjob
    refine ⟨_, ?_, hclassed job hjob⟩
    rw [hdays, if_pos (List.mem_map_of_mem hjob)]
  case neither =>
    intro job hjob r hr
    rw [(hday _ _ hr).2]
    exact (hclassed job hjob).neither_iff hjob
  case exclusive =>
    intro job hjob r hr
    rw [(hday _ _ hr).2]
    exact (hclassed job hjob).score_eq_none_or
  case unasked =>
    intro job hjob r hr
    rw [(hday _ _ hr).2]
    exact Scoring.unasked hjob
  case sorted =>
    intro date r hr
    rw [(hday _ _ hr).2]
    exact Sorting.sort_pairwise_key ScoreError.symbol _

/-- A batch fails with an internal fault that one of its jobs has met. -/
def FaultOf (source : MetricSource α) (formula : Formula α) (batch : List Job)
    (result : Except (RunError α) (DailyScores α)) : Prop :=
  ∃ job ∈ batch, ∃ e, (formula.evaluate job.symbol job.date).run source = .error e ∧
    e.isInternalFault = true ∧ result = .error (.internal (.unforeseenLookup e))

theorem faultOf_collect {arrived : List (Outcome α)}
    (harrived : ∀ o ∈ arrived, o ∈ outcomes source formula batch)
    (hfault : ∃ o ∈ arrived, o.isInternal = true) :
    FaultOf source formula batch (collect batch arrived) := by
  obtain ⟨o, ho, hi⟩ := hfault
  obtain ⟨o', ho', e, he, hinternal, hcollect⟩ := collect_of_isInternal batch ho hi
  obtain ⟨hjob, hrun⟩ := mem_outcomes.1 (harrived o' ho')
  exact ⟨o'.1, hjob, e, hrun.trans he, hinternal, hcollect⟩

/-- **What a batch comes to depends neither on the number of workers nor on the order in which
outcomes arrive.**  Without an internal fault it is one result that has a place for every job; with
one it is an internal fault, though jobs may be left unevaluated.  And every run comes to its
end. -/
theorem result_of_every_run (source : MetricSource α) (formula : Formula α) (batch : List Job) :
    ((∀ o ∈ outcomes source formula batch, o.isInternal = false) →
      ∃ out, Complete source formula batch out ∧
        runJobs source formula batch false = .ok out ∧
        (∀ arrived, arrived.Perm (outcomes source formula batch) →
          collect batch arrived = .ok out) ∧
        ∀ workers p, 0 < workers → Reaches source formula batch workers p → p.Ended →
          p.result batch = .ok out) ∧
    ((∃ o ∈ outcomes source formula batch, o.isInternal = true) →
      FaultOf source formula batch (runJobs source formula batch false) ∧
      (∀ arrived, (∀ o ∈ arrived, o ∈ outcomes source formula batch) →
        (∃ o ∈ arrived, o.isInternal = true) →
          FaultOf source formula batch (collect batch arrived)) ∧
      ∀ workers p, 0 < workers → Reaches source formula batch workers p → p.Ended →
        FaultOf source formula batch (p.result batch)) ∧
    (∀ workers p, Reaches source formula batch workers p →
      ∃ p', Reaches source formula batch workers p' ∧
        Relation.ReflTransGen (Step source formula) p p' ∧ p'.Ended) ∧
    ∀ run : Nat → Pool α, ¬ ∀ n, Step source formula (run n) (run (n + 1)) := by
  refine ⟨fun hinternal => ?_, fun hinternal => ?_, fun workers p h => ?_, not_forever⟩
  · obtain ⟨out, hout⟩ : ∃ out, collect batch (outcomes source formula batch) = .ok out :=
      exists_collect_eq_ok hinternal (by simp [outcomes])
    have harrived : ∀ arrived, arrived.Perm (outcomes source formula batch) →
        collect batch arrived = .ok out := fun arrived hperm =>
      collect_perm hperm.symm outcomes_functional (fun o ho => (mem_outcomes.1 ho).1) hout
    refine ⟨out, complete_of_collect hout, hout, harrived, ?_⟩
    intro workers p hworkers h hended
    exact harrived _ (h.balanced.merged_perm hended hworkers hinternal)
  · refine ⟨faultOf_collect (fun o ho => ho) hinternal, fun arrived => faultOf_collect, ?_⟩
    intro workers p hworkers h hended
    exact faultOf_collect (fun o ho => h.balanced.mem_merged hended ho)
      (h.balanced.exists_internal hended hworkers hinternal)
  · obtain ⟨p', hreach, hended⟩ : ∃ p', Relation.ReflTransGen (Step source formula) p p' ∧
        p'.Ended := exists_ended p
    exact ⟨p', h.trans hreach, hreach, hended⟩

/-- One share has a price, of the second the data is missing, and that of the third is not in the
cache, for which it has been requested or not. -/
def thirdShare (requested : Bool) : MetricSource Float where
  price symbol date :=
    if symbol = "AAPL" then .ok 5
    else if symbol = "GOOG" then .error (.missingData symbol date none)
    else .error (.cacheMiss (.price symbol date requested))
  stdev symbol date _ := .error (.missingData symbol date none)
  fundamentals symbol date := .error (.missingData symbol date none)

def repeatedDay : List Job :=
  jobs [dayOf 1, dayOf 1, dayOf 2] ["AAPL", "GOOG", "MSFT"]

/-- Two workers score the shares of two days, and find the engine at fault where a price had not
been requested. -/
theorem result_of_every_run_repeatedDay :
    (∃ out p, Complete (thirdShare true) priceToday repeatedDay out ∧
      Reaches (thirdShare true) priceToday repeatedDay 2 p ∧ p.Ended ∧
      p.result repeatedDay = .ok out) ∧
    ∃ p, Reaches (thirdShare false) priceToday repeatedDay 2 p ∧ p.Ended ∧
      FaultOf (thirdShare false) priceToday repeatedDay (p.result repeatedDay) := by
  constructor
  · obtain ⟨hok, _, hends, _⟩ :=
      result_of_every_run (thirdShare true) priceToday repeatedDay
    obtain ⟨out, hcomplete, _, _, hresult⟩ := hok (by decide +kernel)
    obtain ⟨p, hreach, _, hended⟩ := hends 2 _ .refl
    exact ⟨out, p, hcomplete, hreach, hended, hresult 2 p (by decide) hreach hended⟩
  · obtain ⟨_, hfault, hends, _⟩ :=
      result_of_every_run (thirdShare false) priceToday repeatedDay
    obtain ⟨_, _, hresult⟩ := hfault (by decide +kernel)
    obtain ⟨p, hreach, _, hended⟩ := hends 2 _ .refl
    exact ⟨p, hreach, hended, hresult 2 p (by decide) hreach hended⟩

end FactorPortfolio.Scoring
