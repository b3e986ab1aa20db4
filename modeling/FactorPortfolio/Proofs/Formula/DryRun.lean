import FactorPortfolio.Proofs.Formula.Bounds
import FactorPortfolio.Proofs.Table
import Mathlib.Tactic.Common

/-!
# The dry run foresees the real one

A dry run is a run against `standInSource` that writes its questions down: `record_snd` and
`lists_record`.  So the requirements of some jobs list what their evaluations ask of the stand-ins.

`Foreseen real dry` relates a reading to one that the stand-ins answer: the two ask the same
questions and end alike, except that the real one may stop early for want of data.

* `Foreseen.asked`: a real run that is foreseen asks for nothing that the dry run does not.
* `foreseen_eval`: a formula with fixed dates is foreseen.  Numbers may differ between the two
  runs, but texts never do, and a date is only made of texts and of numbers that are silent.
-/

namespace FactorPortfolio

namespace Requirements

def Lists (r : Requirements) : Question → Prop
  | .price symbol date => ⟨symbol, date⟩ ∈ r.prices
  | .stdev symbol start stop => ⟨symbol, start, stop⟩ ∈ r.stdevs
  | .fundamentals symbol date => ⟨symbol, date⟩ ∈ r.fundamentals

end Requirements

namespace Recorded

def add (recorded : Recorded) : Question → Recorded
  | .price symbol date => recorded.addPrice symbol date
  | .stdev symbol start stop => recorded.addStdev symbol start stop
  | .fundamentals symbol date => recorded.addFundamentals symbol date

theorem lists_empty (q : Question) : ¬ empty.requirements.Lists q := by
  cases q <;> exact List.not_mem_nil

theorem mem_keys_add {κ : Type} [Ord κ] [Std.TransOrd κ] [Std.LawfulEqOrd κ] {keys : KeySet κ}
    {k k' : κ} : k' ∈ Table.keys (KeySet.add keys k) ↔ k' = k ∨ k' ∈ Table.keys keys := by
  rw [Table.mem_keys_iff, Table.mem_keys_iff, KeySet.contains_add]

theorem lists_add (recorded : Recorded) (q q' : Question) :
    (recorded.add q).requirements.Lists q' ↔ q' = q ∨ recorded.requirements.Lists q' := by
  cases q <;> cases q' <;>
    simp [add, addPrice, addStdev, addFundamentals, requirements, Requirements.Lists,
      mem_keys_add]

end Recorded

variable {α β γ δ : Type} [Scalar α]

/-- Answers every question with the stand-in of the dry run. -/
def standInSource : MetricSource α where
  price _ _ := .ok standIn
  stdev _ _ _ := .ok standIn
  fundamentals _ _ := .ok (some standInRecord)

def Question.standInAnswer : (q : Question) → q.Answer α
  | .price _ _ | .stdev _ _ _ => standIn
  | .fundamentals _ _ => some standInRecord

theorem answer_standInSource (q : Question) :
    (standInSource : MetricSource α).answer q = .ok q.standInAnswer := by
  cases q <;> rfl

namespace Reading

theorem record_ask (q : Question) (next : q.Answer α → Reading α β) (recorded : Recorded) :
    (ask q next).record recorded = (next q.standInAnswer).record (recorded.add q) := by
  cases q <;> rfl

theorem record_snd (r : Reading α β) (recorded : Recorded) :
    (r.record recorded).2 = r.run standInSource := by
  induction r using Reading.ind generalizing recorded with
  | done v => rfl
  | failed e => rfl
  | ask q next ih => rw [record_ask, run_ask_of_ok (answer_standInSource q), ih]

theorem lists_record (r : Reading α β) (recorded : Recorded) (q : Question) :
    (r.record recorded).1.requirements.Lists q ↔
      recorded.requirements.Lists q ∨ q ∈ r.asked standInSource := by
  induction r using Reading.ind generalizing recorded with
  | done v => simp [record, asked]
  | failed e => simp [record, asked]
  | ask q' next ih =>
    rw [record_ask, ih, Recorded.lists_add, asked_ask_of_ok (answer_standInSource q'),
      List.mem_cons]
    tauto

end Reading

/-- **Requirements list what the jobs ask of the stand-ins**, and nothing else. -/
theorem Formula.lists_requirements (formula : Formula α) (jobs : List Job) (q : Question) :
    (formula.requirements jobs).Lists q ↔ ∃ job ∈ jobs,
      q ∈ (formula.tree.eval job.symbol job.date).asked standInSource := by
  have aux : ∀ recorded : Recorded,
      (jobs.foldl (fun recorded job =>
        ((formula.evaluateUnchecked job.symbol job.date).record recorded).1)
        recorded).requirements.Lists q ↔ recorded.requirements.Lists q ∨
      ∃ job ∈ jobs, q ∈ (formula.tree.eval job.symbol job.date).asked standInSource := by
    induction jobs with
    | nil => simp
    | cons job jobs ih =>
      intro recorded
      rw [List.foldl_cons, ih, Reading.lists_record, asked_evaluateUnchecked]
      simp only [List.mem_cons, exists_eq_or_imp]
      tauto
  rw [requirements, aux, or_iff_right (Recorded.lists_empty q)]

/-! ### Runs that are foreseen -/

/-- The second reading, answered by the stand-ins, asks what the first one asks and ends like it;
only missing data may end the first one early. -/
inductive Foreseen (R : β → γ → Prop) : Reading α β → Reading α γ → Prop
  | done {v : β} {w : γ} (h : R v w) : Foreseen R (.done v) (.done w)
  | failed (e e' : EvalError α) : Foreseen R (.failed e) (.failed e')
  | missing (symbol : Symbol) (date : Date) (figure : Option Figure) (dry : Reading α γ) :
      Foreseen R (.failed (.missingData symbol date figure)) dry
  | ask {q : Question} {next : q.Answer α → Reading α β} {dry : q.Answer α → Reading α γ}
      (h : ∀ x, Foreseen R (next x) (dry q.standInAnswer)) : Foreseen R (.ask q next) (.ask q dry)

namespace Foreseen

variable {R : β → γ → Prop} {real : Reading α β} {dry : Reading α γ}

theorem price {symbol : Symbol} {date : Date} {next : α → Reading α β} {dry : α → Reading α γ}
    (h : ∀ x, Foreseen R (next x) (dry standIn)) :
    Foreseen R (.price symbol date next) (.price symbol date dry) :=
  ask (q := .price symbol date) h

theorem stdev {symbol : Symbol} {start stop : Date} {next : α → Reading α β}
    {dry : α → Reading α γ} (h : ∀ x, Foreseen R (next x) (dry standIn)) :
    Foreseen R (.stdev symbol start stop next) (.stdev symbol start stop dry) :=
  ask (q := .stdev symbol start stop) h

theorem fundamentals {symbol : Symbol} {date : Date} {next : Option (Fundamentals α) → Reading α β}
    {dry : Option (Fundamentals α) → Reading α γ}
    (h : ∀ r, Foreseen R (next r) (dry (some standInRecord))) :
    Foreseen R (.fundamentals symbol date next) (.fundamentals symbol date dry) :=
  ask (q := .fundamentals symbol date) h

theorem mono {S : β → γ → Prop} (h : Foreseen R real dry) (hS : ∀ v w, R v w → S v w) :
    Foreseen S real dry := by
  induction h with
  | done h => exact done (hS _ _ h)
  | failed e e' => exact failed e e'
  | missing symbol date figure dry => exact missing symbol date figure dry
  | ask _ ih => exact ask ih

theorem bind {β' γ' : Type} {S : β' → γ' → Prop} {f : β → Reading α β'} {g : γ → Reading α γ'}
    (h : Foreseen R real dry) (hf : ∀ v w, R v w → Foreseen S (f v) (g w)) :
    Foreseen S (real.bind f) (dry.bind g) := by
  induction h with
  | done h => exact hf _ _ h
  | failed e e' => exact failed e e'
  | missing symbol date figure dry => exact missing symbol date figure _
  | ask _ ih =>
    rw [Reading.bind_ask, Reading.bind_ask]
    exact ask ih

theorem ofExcept (r : Except (EvalError α) β) :
    Foreseen Eq (Reading.ofExcept r) (Reading.ofExcept r) := by
  cases r with
  | ok v => exact done rfl
  | error e => exact failed e e

/-- **Nothing is asked that the dry run does not ask.** -/
theorem asked (h : Foreseen R real dry) {source : MetricSource α} {q : Question}
    (hq : q ∈ real.asked source) : q ∈ dry.asked standInSource := by
  induction h with
  | done h => cases hq
  | failed e e' => cases hq
  | missing symbol date figure dry => cases hq
  | @ask q' _ _ _ ih =>
    rw [Reading.mem_asked_ask] at hq ⊢
    exact hq.imp_right fun ⟨x, _, hx⟩ => ⟨_, answer_standInSource q', ih x hx⟩

end Foreseen

/-- Values of two runs: the same text, or two numbers. -/
inductive Value.Alike : Value α → Value α → Prop
  | number (x y : α) : Alike (.number x) (.number y)
  | text (s : String) : Alike (.text s) (.text s)

omit [Scalar α] in
theorem Value.Alike.refl : ∀ v : Value α, v.Alike v
  | .number x => .number x x
  | .text s => .text s

namespace Expr

open Reading

theorem foreseen_operand (op : Operator) {v w : Value α} (h : v.Alike w) :
    Foreseen (fun _ _ => True) (operand op v) (operand op w) := by
  cases h with
  | number x y => exact .done trivial
  | text s => exact .failed _ _

theorem foreseen_required (symbol : Symbol) (d : Date) (figure : Figure) :
    Foreseen (fun _ _ : α => True) (required symbol d figure) (required symbol d figure) := by
  refine .fundamentals ?_
  intro r
  cases r with
  | none => exact .missing _ _ _ _
  | some record =>
    rw [Reading.bind, Reading.bind]
    cases hfigure : record.figure figure with
    | none =>
      simp only [hfigure]
      exact .missing _ _ _ _
    | some x =>
      simp only [hfigure]
      cases figure <;> exact .done trivial

variable (symbol : Symbol) (today : Date)

/-- A function that reads data takes dates alone; with the same dates it asks the same. -/
theorem foreseen_applyFunction {f : Function} (hf : f.movesDate = false) (args : List Argument) :
    Foreseen Value.Alike (applyFunction symbol today f args : Reading α (Value α))
      (applyFunction symbol today f args) := by
  have hnumber (x y : α) : Foreseen Value.Alike (.done (.number x) : Reading α (Value α))
      (.done (.number y)) := .done (.number x y)
  unfold applyFunction
  split
  · cases hf
  · cases hf
  · cases hf
  · cases hf
  · exact .price fun x => hnumber _ _
  · exact .price fun first => .price fun last => hnumber _ _
  · exact .stdev fun x => hnumber _ _
  · refine (foreseen_required symbol _ _).bind fun shares _ _ => ?_
    exact .price fun price => hnumber _ _
  · refine (foreseen_required symbol _ _).bind fun eps _ _ => ?_
    exact .price fun price => hnumber _ _
  · refine (foreseen_required symbol _ _).bind fun assets _ _ => ?_
    refine (foreseen_required symbol _ _).bind fun liabilities _ _ => ?_
    refine (foreseen_required symbol _ _).bind fun shares _ _ => ?_
    exact .price fun price => hnumber _ _
  · exact .failed _ _

theorem foreseen_dateOf (r : Except DateFault Date) :
    Foreseen Eq (dateOf r : Reading α Date) (dateOf r) :=
  Foreseen.ofExcept (r.mapError .invalidDate)

theorem foreseen_argument (f : Function) (index : Nat) {v w : Value α} (h : v.Alike w) :
    Foreseen Eq (argument f index .date v) (argument f index .date w) := by
  cases h with
  | number x y => exact .failed _ _
  | text s =>
    rw [argument, bind_eq]
    exact (foreseen_dateOf _).bind fun d _ h => h ▸ .done rfl

theorem foreseen_evalArgs (f : Function) {args : List (Expr α)}
    (h : ∀ e ∈ args, Foreseen Value.Alike (eval symbol today e) (eval symbol today e))
    {kinds : List ParamKind} (hkinds : ∀ kind ∈ kinds, kind = .date) (index : Nat) :
    Foreseen Eq (evalArgs symbol today f index kinds args)
      (evalArgs symbol today f index kinds args) := by
  induction args generalizing kinds index with
  | nil =>
    rw [evalArgs]
    exact .done rfl
  | cons e rest ih =>
    cases kinds with
    | nil =>
      rw [evalArgs]
      exact .done rfl
    | cons kind kinds =>
      obtain rfl := hkinds kind List.mem_cons_self
      have hrest := ih (fun e' he' => h e' (List.mem_cons_of_mem e he'))
        (fun kind hkind => hkinds kind (List.mem_cons_of_mem _ hkind)) (index + 1)
      rw [evalArgs]
      refine (h e List.mem_cons_self).bind fun v w hvw => ?_
      refine (foreseen_argument f index hvw).bind fun a _ ha => ?_
      exact hrest.bind fun as _ has => ha ▸ has ▸ .done rfl

theorem eq_date_of_mem_params {f : Function} (hf : f.movesDate = false) :
    ∀ kind ∈ f.params, kind = .date := by
  cases f <;> simp_all [Function.params, Function.movesDate]

theorem foreseen_refl {r : Reading α β} {post : β → Prop} (h : r.Within (fun _ => False) post) :
    Foreseen Eq r r := by
  obtain ⟨outcome, rfl⟩ := h.settled
  exact Foreseen.ofExcept outcome

/-- **A formula with fixed dates is foreseen.** -/
theorem foreseen_eval {e : Expr α} (he : e.hasFixedDates = true) :
    Foreseen Value.Alike (eval symbol today e) (eval symbol today e) := by
  induction e using Expr.ind with
  | number x => exact .done (.number x x)
  | text s => exact .done (.text s)
  | currentDate => exact .done (.text _)
  | neg e ih =>
    simp only [hasFixedDates, every, Bool.and_eq_true] at he
    rw [eval]
    refine (ih he.2).bind fun v w hvw => ?_
    exact (foreseen_operand _ hvw).bind fun x y _ => .done (.number _ _)
  | binary op l r ihl ihr =>
    simp only [hasFixedDates, every, Bool.and_eq_true] at he
    rw [eval]
    refine (ihl he.1.2).bind fun v w hvw => ?_
    refine (foreseen_operand op hvw).bind fun x x' _ => ?_
    refine (ihr he.2).bind fun v' w' hvw' => ?_
    exact (foreseen_operand op hvw').bind fun y y' _ => .done (.number _ _)
  | call f args ih =>
    rw [hasFixedDates, every_call] at he
    cases hf : f.movesDate with
    | true =>
      -- the whole call is silent, so that both runs are the same result
      have hsilent : (call f args).isSilent = true := by
        refine every_call.2 ⟨hf, fun e hmem => ?_⟩
        have hall : args.all isSilent = true := by simpa [hf] using he.1
        exact List.all_eq_true.1 hall e hmem
      exact (foreseen_refl (within_of_isSilent hsilent)).mono fun v _ h => h ▸ .refl v
    | false =>
      rw [eval]
      split
      · have hargs := foreseen_evalArgs symbol today f (fun e hmem => ih e hmem (he.2 e hmem))
          (eq_date_of_mem_params hf) 0
        refine hargs.bind fun as _ has => has ▸ ?_
        exact foreseen_applyFunction symbol today hf as
      · exact .failed _ _

end Expr

/-- **The requirements of a formula with fixed dates hold all that its jobs will ever ask for**,
whatever the answers are. -/
theorem Formula.lists_of_asked {formula : Formula α} (h : formula.tree.hasFixedDates = true)
    {jobs : List Job} {job : Job} (hjob : job ∈ jobs) {source : MetricSource α} {q : Question}
    (hq : q ∈ (formula.evaluate job.symbol job.date).asked source) :
    (formula.requirements jobs).Lists q := by
  rw [asked_evaluate] at hq
  exact (formula.lists_requirements jobs q).2
    ⟨job, hjob, (Expr.foreseen_eval job.symbol job.date h).asked hq⟩

end FactorPortfolio
