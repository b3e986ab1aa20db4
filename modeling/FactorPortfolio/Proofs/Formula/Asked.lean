import FactorPortfolio.Formula.Reading
import FactorPortfolio.Proofs.Calendar.Order
import Mathlib.Tactic.Common

/-!
# What a reading asks for

A `Question` is what a reading puts to a source, and `ask` puts one: a reading is done, has failed,
or asks (`Reading.ind`).  `Reading.asked source` lists the questions that it asks, in order, as far
as the source answers them.

* `run_congr`: a reading cannot tell apart two sources that answer its questions alike.
* `agree_or_exists_difference`: two sources that differ on a question that one of them is asked
  differ on one that both are asked.
* `Reading.Within`: whatever the answers are, only certain questions are asked, and what is handed
  on is as stated.  It also says that no fault of a cache is raised but by the source.
-/

namespace FactorPortfolio

inductive Question where
  | price (symbol : Symbol) (date : Date)
  | stdev (symbol : Symbol) (start stop : Date)
  | fundamentals (symbol : Symbol) (date : Date)
  deriving DecidableEq

namespace Question

def symbol : Question → Symbol
  | price symbol _ | stdev symbol _ _ | fundamentals symbol _ => symbol

/-- No date of the question lies after `d`. -/
def UpTo (d : Date) : Question → Prop
  | price _ date | fundamentals _ date => date ≤ d
  | stdev _ start stop => start ≤ d ∧ stop ≤ d

theorem UpTo.mono {d d' : Date} {q : Question} (h : q.UpTo d) (hd : d ≤ d') : q.UpTo d' := by
  cases q with
  | price symbol date => exact Date.le_trans h hd
  | stdev symbol start stop => exact ⟨Date.le_trans h.1 hd, Date.le_trans h.2 hd⟩
  | fundamentals symbol date => exact Date.le_trans h hd

def IsStdev : Question → Prop
  | stdev _ _ _ => True
  | _ => False

abbrev Answer (α : Type) : Question → Type
  | price _ _ | stdev _ _ _ => α
  | fundamentals _ _ => Option (Fundamentals α)

end Question

/-- The fault is that of a cache, which no formula raises by itself. -/
def EvalError.isCacheMiss {α : Type} : EvalError α → Bool
  | cacheMiss _ => true
  | _ => false

namespace MetricSource

variable {α : Type}

def answer (s : MetricSource α) : (q : Question) → Except (EvalError α) (q.Answer α)
  | .price symbol date => s.price symbol date
  | .stdev symbol start stop => s.stdev symbol start stop
  | .fundamentals symbol date => s.fundamentals symbol date

def Agree (s s' : MetricSource α) (q : Question) : Prop := s.answer q = s'.answer q

end MetricSource

namespace Reading

variable {α β γ : Type} {s s' : MetricSource α} {q : Question}

def ask : (q : Question) → (q.Answer α → Reading α β) → Reading α β
  | .price symbol date, next => price symbol date next
  | .stdev symbol start stop, next => stdev symbol start stop next
  | .fundamentals symbol date, next => fundamentals symbol date next

@[elab_as_elim]
theorem ind {motive : Reading α β → Prop} (done : ∀ v, motive (done v))
    (failed : ∀ e, motive (failed e))
    (ask : ∀ q next, (∀ x, motive (next x)) → motive (ask q next)) (r : Reading α β) :
    motive r := by
  induction r with
  | done v => exact done v
  | failed e => exact failed e
  | price symbol date next ih => exact ask (.price symbol date) next ih
  | stdev symbol start stop next ih => exact ask (.stdev symbol start stop) next ih
  | fundamentals symbol date next ih => exact ask (.fundamentals symbol date) next ih

theorem bind_ask (q : Question) (next : q.Answer α → Reading α β) (f : β → Reading α γ) :
    (ask q next).bind f = ask q fun x => (next x).bind f := by
  cases q <;> rfl

theorem run_ask_of_ok {next : q.Answer α → Reading α β} {x : q.Answer α}
    (h : s.answer q = .ok x) : (ask q next).run s = (next x).run s := by
  cases q <;> simp only [MetricSource.answer] at h <;> simp only [ask, run, h]

theorem run_ask_of_error {next : q.Answer α → Reading α β} {e : EvalError α}
    (h : s.answer q = .error e) : (ask q next).run s = .error e := by
  cases q <;> simp only [MetricSource.answer] at h <;> simp only [ask, run, h]

/-- The questions of a reading, as far as the source answers them. -/
def asked (source : MetricSource α) : Reading α β → List Question
  | done _ => []
  | failed _ => []
  | price symbol date next => .price symbol date ::
    match source.price symbol date with
    | .ok x => (next x).asked source
    | .error _ => []
  | stdev symbol start stop next => .stdev symbol start stop ::
    match source.stdev symbol start stop with
    | .ok x => (next x).asked source
    | .error _ => []
  | fundamentals symbol date next => .fundamentals symbol date ::
    match source.fundamentals symbol date with
    | .ok r => (next r).asked source
    | .error _ => []

theorem asked_ask_of_ok {next : q.Answer α → Reading α β} {x : q.Answer α}
    (h : s.answer q = .ok x) : (ask q next).asked s = q :: (next x).asked s := by
  cases q <;> simp only [MetricSource.answer] at h <;> simp only [ask, asked, h]

theorem asked_ask_of_error {next : q.Answer α → Reading α β} {e : EvalError α}
    (h : s.answer q = .error e) : (ask q next).asked s = [q] := by
  cases q <;> simp only [MetricSource.answer] at h <;> simp only [ask, asked, h]

theorem mem_asked_ask {q' : Question} {next : q.Answer α → Reading α β} :
    q' ∈ (ask q next).asked s ↔
      q' = q ∨ ∃ x, s.answer q = .ok x ∧ q' ∈ (next x).asked s := by
  cases h : s.answer q with
  | ok x => simp [asked_ask_of_ok h]
  | error e => simp [asked_ask_of_error h]

/-- **Only the questions asked count.**  Sources that answer them alike lead to the same result. -/
theorem run_congr (r : Reading α β) (h : ∀ q ∈ r.asked s, s.Agree s' q) : r.run s = r.run s' := by
  induction r using Reading.ind with
  | done v => rfl
  | failed e => rfl
  | ask q next ih =>
    have hq : s.answer q = s'.answer q := h q (mem_asked_ask.2 (.inl rfl))
    cases hx : s.answer q with
    | error e => rw [run_ask_of_error hx, run_ask_of_error (hq ▸ hx)]
    | ok x =>
      rw [run_ask_of_ok hx, run_ask_of_ok (hq ▸ hx)]
      exact ih x fun q' hmem => h q' (mem_asked_ask.2 (.inr ⟨x, hx, hmem⟩))

theorem asked_congr (r : Reading α β) (h : ∀ q ∈ r.asked s, s.Agree s' q) :
    r.asked s = r.asked s' := by
  induction r using Reading.ind with
  | done v => rfl
  | failed e => rfl
  | ask q next ih =>
    have hq : s.answer q = s'.answer q := h q (mem_asked_ask.2 (.inl rfl))
    cases hx : s.answer q with
    | error e => rw [asked_ask_of_error hx, asked_ask_of_error (hq ▸ hx)]
    | ok x =>
      rw [asked_ask_of_ok hx, asked_ask_of_ok (hq ▸ hx)]
      exact congrArg (q :: ·) (ih x fun q' hmem => h q' (mem_asked_ask.2 (.inr ⟨x, hx, hmem⟩)))

/-- Two sources answer all the questions of a reading alike, or both are asked one that they do
not. -/
theorem agree_or_exists_difference (s s' : MetricSource α) (r : Reading α β) :
    (∀ q ∈ r.asked s, s.Agree s' q) ∨
      ∃ q, q ∈ r.asked s ∧ q ∈ r.asked s' ∧ ¬ s.Agree s' q := by
  induction r using Reading.ind with
  | done v => exact .inl fun q hq => by cases hq
  | failed e => exact .inl fun q hq => by cases hq
  | ask q next ih =>
    by_cases hq : s.answer q = s'.answer q
    · cases hx : s.answer q with
      | error e =>
        refine .inl ?_
        intro q' hmem
        rw [asked_ask_of_error hx, List.mem_singleton] at hmem
        exact hmem ▸ hq
      | ok x =>
        rw [asked_ask_of_ok hx, asked_ask_of_ok (hq ▸ hx), List.forall_mem_cons]
        refine (ih x).imp (fun h => ⟨hq, h⟩) fun ⟨q', h, h', hne⟩ => ?_
        exact ⟨q', List.mem_cons_of_mem q h, List.mem_cons_of_mem q h', hne⟩
    · exact .inr ⟨q, mem_asked_ask.2 (.inl rfl), mem_asked_ask.2 (.inl rfl), hq⟩

theorem run_eq_error {r : Reading α β} {e : EvalError α} (hq : q ∈ r.asked s)
    (he : s.answer q = .error e) : r.run s = .error e := by
  induction r using Reading.ind with
  | done v => cases hq
  | failed e => cases hq
  | ask q' next ih =>
    rcases mem_asked_ask.1 hq with rfl | ⟨x, hx, hq⟩
    · exact run_ask_of_error he
    · rw [run_ask_of_ok hx]
      exact ih x hq

theorem asked_bind (source : MetricSource α) (r : Reading α β) (f : β → Reading α γ) :
    (r.bind f).asked source = r.asked source ++
      match r.run source with
      | .ok v => (f v).asked source
      | .error _ => [] := by
  induction r using Reading.ind with
  | done v => rfl
  | failed e => rfl
  | ask q next ih =>
    rw [bind_ask]
    cases hx : source.answer q with
    | ok x => rw [asked_ask_of_ok hx, asked_ask_of_ok hx, run_ask_of_ok hx, ih x, List.cons_append]
    | error e => rw [asked_ask_of_error hx, asked_ask_of_error hx, run_ask_of_error hx]; rfl

/-! ### Bounds on a reading -/

/-- Whatever the answers, only questions in `may` are put and only values in `post` come out. -/
inductive Within (may : Question → Prop) (post : β → Prop) : Reading α β → Prop
  | done {v : β} (h : post v) : Within may post (done v)
  | failed {e : EvalError α} (h : e.isCacheMiss = false) : Within may post (failed e)
  | ask {q : Question} {next : q.Answer α → Reading α β} (h : may q)
      (hnext : ∀ x, Within may post (next x)) : Within may post (ask q next)

namespace Within

variable {may may' : Question → Prop} {post post' : β → Prop}

theorem price {symbol : Symbol} {date : Date} {next : α → Reading α β}
    (h : may (.price symbol date)) (hnext : ∀ x, (next x).Within may post) :
    (Reading.price symbol date next).Within may post :=
  ask (q := .price symbol date) h hnext

theorem stdev {symbol : Symbol} {start stop : Date} {next : α → Reading α β}
    (h : may (.stdev symbol start stop)) (hnext : ∀ x, (next x).Within may post) :
    (Reading.stdev symbol start stop next).Within may post :=
  ask (q := .stdev symbol start stop) h hnext

theorem fundamentals {symbol : Symbol} {date : Date} {next : Option (Fundamentals α) → Reading α β}
    (h : may (.fundamentals symbol date)) (hnext : ∀ r, (next r).Within may post) :
    (Reading.fundamentals symbol date next).Within may post :=
  ask (q := .fundamentals symbol date) h hnext

theorem mono {r : Reading α β} (hr : r.Within may post) (hmay : ∀ q, may q → may' q)
    (hpost : ∀ v, post v → post' v) : r.Within may' post' := by
  induction hr with
  | done h => exact done (hpost _ h)
  | failed h => exact failed h
  | ask h _ ih => exact ask (hmay _ h) ih

theorem bind {post' : γ → Prop} {r : Reading α β} {f : β → Reading α γ} (hr : r.Within may post)
    (hf : ∀ v, post v → (f v).Within may post') : (r.bind f).Within may post' := by
  induction hr with
  | done h => exact hf _ h
  | failed h => exact failed h
  | ask h _ ih =>
    rw [bind_ask]
    exact ask h ih

theorem asked {r : Reading α β} (hr : r.Within may post) {source : MetricSource α} {q : Question}
    (hq : q ∈ r.asked source) : may q := by
  induction hr with
  | done h => cases hq
  | failed h => cases hq
  | ask h _ ih =>
    rcases mem_asked_ask.1 hq with rfl | ⟨x, _, hq⟩
    · exact h
    · exact ih x hq

theorem exists_fault {r : Reading α β} (hr : r.Within may post) {source : MetricSource α}
    {e : EvalError α} (he : e.isCacheMiss = true) (h : r.run source = .error e) :
    ∃ q ∈ r.asked source, source.answer q = .error e := by
  induction hr with
  | done => cases h
  | failed he' =>
    cases h
    rw [he] at he'
    cases he'
  | @ask q next _ _ ih =>
    cases hx : source.answer q with
    | ok x =>
      rw [run_ask_of_ok hx] at h
      obtain ⟨q', hq', hfault⟩ := ih x h
      exact ⟨q', mem_asked_ask.2 (.inr ⟨x, hx, hq'⟩), hfault⟩
    | error e' =>
      rw [run_ask_of_error hx] at h
      cases h
      exact ⟨q, mem_asked_ask.2 (.inl rfl), hx⟩

theorem settled {r : Reading α β} (hr : r.Within (fun _ => False) post) :
    ∃ outcome, r = ofExcept outcome := by
  cases hr with
  | @done v => exact ⟨.ok v, rfl⟩
  | @failed e => exact ⟨.error e, rfl⟩
  | ask h => exact h.elim

end Within

@[simp] theorem bind_eq (r : Reading α β) (f : β → Reading α γ) : r >>= f = r.bind f := rfl

theorem bind_assoc {δ : Type} (r : Reading α β) (f : β → Reading α γ) (g : γ → Reading α δ) :
    (r.bind f).bind g = r.bind fun b => (f b).bind g := by
  induction r with
  | done v => rfl
  | failed e => rfl
  | price symbol date next ih => exact congrArg (Reading.price symbol date) (funext ih)
  | stdev symbol start stop next ih => exact congrArg (Reading.stdev symbol start stop) (funext ih)
  | fundamentals symbol date next ih =>
    exact congrArg (Reading.fundamentals symbol date) (funext ih)

end Reading

end FactorPortfolio
