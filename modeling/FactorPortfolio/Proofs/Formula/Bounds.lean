import FactorPortfolio.Formula.Requirements
import FactorPortfolio.Proofs.Calendar.Shift
import FactorPortfolio.Proofs.Calendar.Text
import FactorPortfolio.Proofs.Formula.Asked
import FactorPortfolio.Proofs.Formula.Expr
import Mathlib.Tactic.Common

/-!
# What a formula asks for

`within_applyFunction` says what a function asks for and what it makes of its arguments, and
`within_eval` carries such bounds over to formulas: a formula keeps within them if the functions
that it calls do.  From it follow three facts: a silent formula asks for nothing, one without
`stdev` asks for no volatility, and one that looks back never asks beyond today.
-/

namespace FactorPortfolio

theorem Date.shift_eq_ok_iff_shift? {d d' : Date} {years months days : Int} :
    d.shift years months days = .ok d' ↔ d.shift? years months days = some d' := by
  rw [shift]
  cases d.shift? years months days <;> simp

/-- An argument that is a date lies no later than `d`. -/
def Argument.UpTo (d : Date) : Argument → Prop
  | date e => e ≤ d
  | integer _ => True

namespace Expr

open Reading

variable {α : Type} [Scalar α] {may : Question → Prop} (symbol : Symbol) (today : Date)

omit [Scalar α] in
theorem within_dateOf (r : Except DateFault Date) :
    (dateOf r : Reading α Date).Within may (fun d => r = .ok d) := by
  cases r with
  | ok d => exact .done rfl
  | error fault => exact .failed rfl

omit [Scalar α] in
theorem within_operand (op : Operator) (v : Value α) :
    (operand op v).Within may (fun _ => True) := by
  cases v with
  | number x => exact .done trivial
  | text s => exact .failed rfl

theorem within_argument (f : Function) (index : Nat) (kind : ParamKind) (v : Value α) :
    (argument f index kind v).Within may fun a =>
      (∃ n, a = .integer n) ∨ ∃ s d, v = .text s ∧ Date.parse s = .ok d ∧ a = .date d := by
  unfold argument
  split
  · rename_i s
    exact (within_dateOf _).bind fun d hd => .done (.inr ⟨s, d, rfl, hd, rfl⟩)
  · split
    · exact .done (.inl ⟨_, rfl⟩)
    · exact .failed rfl
  · exact .failed rfl

omit [Scalar α] in
theorem within_required (d : Date) (figure : Figure) :
    (required symbol d figure : Reading α α).Within (· = .fundamentals symbol d)
      (fun _ => True) := by
  refine .fundamentals rfl ?_
  intro r
  rw [Reading.bind]
  split
  · exact .failed rfl
  · split
    · exact .failed rfl
    · exact .done trivial

omit [Scalar α] in
theorem within_ago (f : Function) (n years months days : Int) (hy : 0 ≤ years) (hm : 0 ≤ months)
    (hd : 0 ≤ days) : (ago f today n years months days : Reading α (Value α)).Within may
      fun v => ∃ d ≤ today, v = .text d.text := by
  unfold ago
  split
  · exact .failed rfl
  · rename_i hn
    have back : ∀ k : Int, 0 ≤ k → -(n * k) ≤ 0 := fun k hk => by
      have := Int.mul_nonneg (Int.not_lt.1 hn) hk
      omega
    refine (within_dateOf _).bind fun d hshift => .done ⟨d, ?_, rfl⟩
    exact Date.le_of_shift? (back _ hy) (back _ hm) (back _ hd)
      (Date.shift_eq_ok_iff_shift?.1 hshift)

structure MayAsk (f : Function) (args : List Argument) (q : Question) : Prop where
  symbol_eq : q.symbol = symbol
  readsData : f.movesDate = false
  ofStdev : q.IsStdev → f = .stdev
  upTo : ∀ d, (∀ a ∈ args, a.UpTo d) → q.UpTo d

theorem mayAsk_price {f : Function} {args : List Argument} {d : Date}
    (hf : f.movesDate = false) (hd : .date d ∈ args) : MayAsk symbol f args (.price symbol d) :=
  ⟨rfl, hf, False.elim, fun _ h => h _ hd⟩

theorem mayAsk_fundamentals {f : Function} {args : List Argument} {d : Date}
    (hf : f.movesDate = false) (hd : .date d ∈ args) :
    MayAsk symbol f args (.fundamentals symbol d) :=
  ⟨rfl, hf, False.elim, fun _ h => h _ hd⟩

theorem mayAsk_stdev {args : List Argument} {start stop : Date} (hstart : .date start ∈ args)
    (hstop : .date stop ∈ args) : MayAsk symbol .stdev args (.stdev symbol start stop) :=
  ⟨rfl, rfl, fun _ => rfl, fun _ h => ⟨h _ hstart, h _ hstop⟩⟩

/-- A function asks about its symbol, at its arguments, and makes no text later than today. -/
theorem within_applyFunction (f : Function) (args : List Argument) :
    (applyFunction symbol today f args : Reading α (Value α)).Within (MayAsk symbol f args)
      (fun v => f ≠ .addDate → ∀ s, v = .text s → ∃ d ≤ today, s = d.text) := by
  have hnumber : ∀ x : α, f ≠ .addDate → ∀ s, Value.number x = .text s → ∃ d ≤ today, s = d.text :=
    fun x _ s h => nomatch h
  have hago : ∀ v : Value α, (∃ d ≤ today, v = .text d.text) → f ≠ .addDate →
      ∀ s, v = .text s → ∃ d ≤ today, s = d.text := by
    rintro _ ⟨d, hd, rfl⟩ _ s h
    exact ⟨d, hd, (Value.text.inj h).symm⟩
  have hfigure : ∀ d figure, f.movesDate = false → .date d ∈ args →
      (required symbol d figure : Reading α α).Within (MayAsk symbol f args) (fun _ => True) :=
    fun d figure hf hd => (within_required symbol d figure).mono
      (by rintro _ rfl; exact mayAsk_fundamentals symbol hf hd) fun _ h => h
  unfold applyFunction
  split
  · exact (within_dateOf _).bind fun d _ => .done fun h => absurd rfl h
  · exact (within_ago today _ _ _ _ _ (by omega) (by omega) (by omega)).mono (fun _ h => h) hago
  · exact (within_ago today _ _ _ _ _ (by omega) (by omega) (by omega)).mono (fun _ h => h) hago
  · exact (within_ago today _ _ _ _ _ (by omega) (by omega) (by omega)).mono (fun _ h => h) hago
  · exact .price (mayAsk_price symbol rfl (by simp)) fun x => .done (hnumber _)
  · refine .price (mayAsk_price symbol rfl (by simp)) ?_
    intro first
    exact .price (mayAsk_price symbol rfl (by simp)) fun last => .done (hnumber _)
  · exact .stdev (mayAsk_stdev symbol (by simp) (by simp)) fun x => .done (hnumber _)
  · refine (hfigure _ _ rfl (by simp)).bind fun shares _ => ?_
    exact .price (mayAsk_price symbol rfl (by simp)) fun price => .done (hnumber _)
  · refine (hfigure _ _ rfl (by simp)).bind fun eps _ => ?_
    exact .price (mayAsk_price symbol rfl (by simp)) fun price => .done (hnumber _)
  · refine (hfigure _ _ rfl (by simp)).bind fun assets _ => ?_
    refine (hfigure _ _ rfl (by simp)).bind fun liabilities _ => ?_
    refine (hfigure _ _ rfl (by simp)).bind fun shares _ => ?_
    exact .price (mayAsk_price symbol rfl (by simp)) fun price => .done (hnumber _)
  · exact .failed rfl

/-- What has to hold of the parts of a formula for `within_eval`. -/
structure Bounds (p : Expr α → Bool) (may : Question → Prop) (value : Value α → Prop)
    (arg : Argument → Prop) : Prop where
  number : ∀ x, value (.number x)
  text : ∀ s, p (.text s) = true → value (.text s)
  currentDate : value (.text today.text)
  date : ∀ s d, value (.text s) → Date.parse s = .ok d → arg (.date d)
  integer : ∀ n, arg (.integer n)
  call : ∀ f args values, p (.call f args) = true → (∀ a ∈ values, arg a) →
    (applyFunction symbol today f values).Within may value

variable {symbol today} {p : Expr α → Bool} {value : Value α → Prop} {arg : Argument → Prop}

/-- Where nothing is said of values, the functions called are all that counts. -/
theorem Bounds.ofCalls (h : ∀ f args values, p (.call f args) = true →
    ∀ q, MayAsk symbol f values q → may q) :
    Bounds symbol today p may (fun _ => True) (fun _ => True) :=
  ⟨fun _ => trivial, fun _ _ => trivial, trivial, fun _ _ _ _ => trivial, fun _ => trivial,
    fun f args values hp _ => (within_applyFunction symbol today f values).mono
      (h f args values hp) fun _ _ => trivial⟩

theorem within_evalArgs (h : Bounds symbol today p may value arg) (f : Function)
    {args : List (Expr α)} (hargs : ∀ e ∈ args, (eval symbol today e).Within may value)
    (kinds : List ParamKind) (index : Nat) :
    (evalArgs symbol today f index kinds args).Within may fun as => ∀ a ∈ as, arg a := by
  induction args generalizing kinds index with
  | nil =>
    rw [evalArgs]
    exact .done (by simp)
  | cons e rest ih =>
    cases kinds with
    | nil =>
      rw [evalArgs]
      exact .done (by simp)
    | cons kind kinds =>
      have hrest := ih (fun e' he' => hargs e' (List.mem_cons_of_mem e he')) kinds (index + 1)
      rw [evalArgs]
      refine (hargs e List.mem_cons_self).bind fun v hv => ?_
      refine (within_argument f index kind v).bind fun a ha => ?_
      refine hrest.bind fun as has => .done fun a' ha' => ?_
      rcases List.mem_cons.1 ha' with rfl | ha'
      · rcases ha with ⟨n, rfl⟩ | ⟨s, d, rfl, hd, rfl⟩
        · exact h.integer n
        · exact h.date s d hv hd
      · exact has a' ha'

/-- **A formula keeps within the bounds of the functions it calls.** -/
theorem within_eval (arg : Argument → Prop) (h : Bounds symbol today p may value arg) {e : Expr α}
    (he : e.every p = true) : (eval symbol today e).Within may value := by
  induction e using Expr.ind with
  | number x => exact .done (h.number x)
  | text s => exact .done (h.text s he)
  | currentDate => exact .done h.currentDate
  | neg e ih =>
    rw [every, Bool.and_eq_true] at he
    rw [eval]
    refine (ih he.2).bind fun v _ => ?_
    exact (within_operand _ v).bind fun x _ => .done (h.number _)
  | binary op l r ihl ihr =>
    rw [every, Bool.and_eq_true, Bool.and_eq_true] at he
    rw [eval]
    refine (ihl he.1.2).bind fun v _ => ?_
    refine (within_operand op v).bind fun x _ => ?_
    refine (ihr he.2).bind fun w _ => ?_
    exact (within_operand op w).bind fun y _ => .done (h.number _)
  | call f args ih =>
    rw [every_call] at he
    rw [eval]
    split
    · refine (within_evalArgs h f (fun e hmem => ih e hmem (he.2 e hmem)) _ _).bind fun as has => ?_
      exact h.call f args as he.1 has
    · exact .failed rfl

theorem within_eval_symbol (e : Expr α) :
    (eval symbol today e).Within (fun q => q.symbol = symbol) (fun _ => True) := by
  have hany : e.every (fun _ => true) = true := by
    induction e using Expr.ind with
    | number x => rfl
    | text s => rfl
    | currentDate => rfl
    | neg e ih => simp [every, ih]
    | binary op l r ihl ihr => simp [every, ihl, ihr]
    | call f args ih => exact every_call.2 ⟨rfl, ih⟩
  exact within_eval _ (.ofCalls fun f args values _ q hq => hq.symbol_eq) hany

theorem within_of_isSilent {e : Expr α} (he : e.isSilent = true) :
    (eval symbol today e).Within (fun _ => False) (fun _ => True) := by
  refine within_eval _ (.ofCalls fun f args values hf q hq => ?_) he
  have := hq.readsData
  simp_all

theorem within_of_isWithoutStdev {e : Expr α} (he : e.isWithoutStdev = true) :
    (eval symbol today e).Within (fun q => ¬ q.IsStdev) (fun _ => True) := by
  refine within_eval _ (.ofCalls fun f args values hf q hq hstdev => ?_) he
  rw [hq.ofStdev hstdev] at hf
  cases hf

/-- **A formula that looks back asks for nothing that lies after today.** -/
theorem within_of_looksBack {e : Expr α} (he : e.looksBack = true) :
    (eval symbol today e).Within (fun q => q.symbol = symbol ∧ q.UpTo today)
      (fun v => ∀ s, v = .text s → ∃ d ≤ today, s = d.text) := by
  refine within_eval (Argument.UpTo today) ⟨fun _ _ h => (nomatch h), fun s hs => (nomatch hs),
    fun s h => ⟨today, Date.le_refl today, (Value.text.inj h).symm⟩, fun s d hs hd => ?_,
    fun _ => trivial, fun f args as hf has => ?_⟩ he
  · obtain ⟨d', hle, rfl⟩ := hs s rfl
    rw [Date.parse_text] at hd
    cases hd
    exact hle
  · refine (within_applyFunction symbol today f as).mono (fun q hq => ?_) fun v hv => ?_
    · exact ⟨hq.symbol_eq, hq.upTo today has⟩
    · refine hv ?_
      rintro rfl
      cases hf

end Expr

namespace Formula

open Reading

variable {α : Type} [Scalar α] (formula : Formula α) (symbol : Symbol) (date : Date)
  {may : Question → Prop} {value : Value α → Prop}

theorem within_evaluate (h : (formula.tree.eval symbol date).Within may value) :
    (formula.evaluate symbol date).Within may (fun x => Scalar.isFinite x = true) := by
  refine Within.bind (h.bind fun v _ => ?_) fun x (_ : True) => ?_
  · cases v with
    | number x => exact .done trivial
    | text s => exact .failed rfl
  · split
    · exact .done ‹_›
    · exact .failed rfl

theorem asked_evaluateUnchecked (source : MetricSource α) :
    (formula.evaluateUnchecked symbol date).asked source =
      (formula.tree.eval symbol date).asked source := by
  rw [evaluateUnchecked, bind_eq, asked_bind]
  cases (formula.tree.eval symbol date).run source with
  | error e => simp
  | ok v => cases v <;> simp [asked]

/-- Neither the end of an evaluation nor its last check asks for anything. -/
theorem asked_evaluate (source : MetricSource α) :
    (formula.evaluate symbol date).asked source =
      (formula.tree.eval symbol date).asked source := by
  rw [evaluate, bind_eq, asked_bind, asked_evaluateUnchecked]
  cases (formula.evaluateUnchecked symbol date).run source with
  | error e => simp
  | ok x =>
    show _ ++ asked source (if Scalar.isFinite x then done x else failed (.nonFinite x)) = _
    split <;> simp [asked]

end Formula

end FactorPortfolio
