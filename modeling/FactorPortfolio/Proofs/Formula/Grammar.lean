import FactorPortfolio.Formula.Parser
import Mathlib.Tactic.Common

/-!
# The grammar of formulas, and that the parser reads all of it

`Phrase rank ls e` is the grammar: the lexemes `ls` are a phrase of that rank with the tree `e`.
Operators group to the left, those of a product more tightly than those of a sum, and a minus sign
more tightly still.

`Reads s ls s'` says that the lexemes lead the parser from one state to another.  Phrases of every
rank are read (`Phrase.read`): a primary from wherever an operand comes next, a product from where
no product is open, and a sum from the start of a bracket.  So a sum is read as a whole formula
(`Phrase.run_eq`).
-/

namespace FactorPortfolio

def Operator.isAdditive : Operator → Bool
  | add | sub => true
  | mul | div => false

namespace Parser

variable {α : Type} [Scalar α]

/-- The ranks of phrases, the loosest first. -/
inductive Rank where
  | sum
  | product
  | unary
  | primary

/-- The lexemes are a phrase with the given tree. -/
inductive Phrase : Rank → List (Lexeme α) → Expr α → Prop
  | ofProduct {ls : List (Lexeme α)} {e : Expr α} (h : Phrase .product ls e) : Phrase .sum ls e
  | sum {op : Operator} {ls ms : List (Lexeme α)} {l r : Expr α} (hop : op.isAdditive = true)
      (hl : Phrase .sum ls l) (hr : Phrase .product ms r) :
      Phrase .sum (ls ++ .mark op.symbol :: ms) (.binary op l r)
  | ofUnary {ls : List (Lexeme α)} {e : Expr α} (h : Phrase .unary ls e) : Phrase .product ls e
  | product {op : Operator} {ls ms : List (Lexeme α)} {l r : Expr α} (hop : op.isAdditive = false)
      (hl : Phrase .product ls l) (hr : Phrase .unary ms r) :
      Phrase .product (ls ++ .mark op.symbol :: ms) (.binary op l r)
  | ofPrimary {ls : List (Lexeme α)} {e : Expr α} (h : Phrase .primary ls e) : Phrase .unary ls e
  | minus {ls : List (Lexeme α)} {e : Expr α} (h : Phrase .unary ls e) :
      Phrase .unary (.mark '-' :: ls) e.negate
  | number (x : α) : Phrase .primary [.number x] (.number x)
  | text (s : String) : Phrase .primary [.text s] (.text s)
  | currentDate : Phrase .primary [.word Expr.currentDateName] .currentDate
  | group {ls : List (Lexeme α)} {e : Expr α} (h : Phrase .sum ls e) :
      Phrase .primary (.mark '(' :: (ls ++ [.mark ')'])) e
  | call (f : Function) {args : List (List (Lexeme α) × Expr α)}
      (h : ∀ a ∈ args, Phrase .sum a.1 a.2) :
      Phrase .primary
        (.word f.name :: .mark '(' ::
          (List.intercalate [.mark ','] (args.map Prod.fst) ++ [.mark ')']))
        (.call f (args.map Prod.snd))

/-! ### From state to state -/

/-- Tokens with these lexemes lead from the first state to the second. -/
def Reads (s : State α) (ls : List (Lexeme α)) (s' : State α) : Prop :=
  ∀ ts : List (Token α), ts.map Token.lexeme = ls → ts.foldlM step s = .ok s'

section

variable {s s' s'' : State α} {l : Lexeme α} {ls ms : List (Lexeme α)}

theorem reads_nil (s : State α) : Reads s [] s := by
  intro ts hts
  rw [List.map_eq_nil_iff.1 hts]
  rfl

theorem reads_cons (hstep : ∀ source, step s ⟨l, source⟩ = .ok s') (h : Reads s' ls s'') :
    Reads s (l :: ls) s'' := by
  intro ts hts
  obtain ⟨t, ts, rfl, rfl, hmap⟩ := List.map_eq_cons_iff.1 hts
  rw [List.foldlM_cons, hstep t.source]
  exact h ts hmap

theorem reads_one (hstep : ∀ source, step s ⟨l, source⟩ = .ok s') : Reads s [l] s' :=
  reads_cons hstep (reads_nil s')

theorem Reads.trans (h : Reads s ls s') (h' : Reads s' ms s'') : Reads s (ls ++ ms) s'' := by
  intro ts hts
  obtain ⟨ts₁, ts₂, rfl, hts₁, hts₂⟩ := List.map_eq_append_iff.1 hts
  rw [List.foldlM_append, h ts₁ hts₁]
  exact h' ts₂ hts₂

end

/-! ### One lexeme -/

section

variable {p p' : Pending α} {outer : Outer α} {e : Expr α} {f : Function} {args : List (Expr α)}
  (source : List Char)

theorem step_minus : step (.operand p outer) ⟨.mark '-', source⟩ =
    .ok (.operand ⟨p.sum, p.product, p.minuses + 1⟩ outer) := rfl

theorem step_open : step (.operand p outer) ⟨.mark '(', source⟩ =
    .ok (.operand .fresh ((.group, p) :: outer)) := rfl

theorem step_currentDate : step (.operand p outer) ⟨.word Expr.currentDateName, source⟩ =
    .ok (.value .currentDate p outer) := by
  simp [step, stepOperand]

theorem step_name (f : Function) : step (.operand p outer) ⟨.word f.name, source⟩ =
    .ok (.opening f p outer) := by
  have hname : (f.name == Expr.currentDateName) = false := by cases f <;> decide
  have hfound : Function.ofName? f.name = some f := by cases f <;> decide
  simp [step, stepOperand, hname, hfound]

theorem step_closeGroup : step (.operator e p ((.group, p') :: outer)) ⟨.mark ')', source⟩ =
    .ok (.value (p.total e) p' outer) := rfl

theorem step_closeCall :
    step (.operator e p ((.call f args, p') :: outer)) ⟨.mark ')', source⟩ =
      .ok (.value (.call f (args ++ [p.total e])) p' outer) := rfl

theorem step_comma :
    step (.operator e p ((.call f args, p') :: outer)) ⟨.mark ',', source⟩ =
      .ok (.operand .fresh ((.call f (args ++ [p.total e]), p') :: outer)) := rfl

theorem step_productOperator {op : Operator} (hop : op.isAdditive = false) :
    step (.operator e p outer) ⟨.mark op.symbol, source⟩ =
      .ok (.operand ⟨p.sum, some (p.factor e, op), 0⟩ outer) := by
  cases op <;> first | rfl | cases hop

theorem step_sumOperator {op : Operator} (hop : op.isAdditive = true) :
    step (.operator e p outer) ⟨.mark op.symbol, source⟩ =
      .ok (.operand ⟨some (p.total e, op), none, 0⟩ outer) := by
  cases op <;> first | rfl | cases hop

end

/-! ### Phrases -/

/-- Where a phrase is read from, and to which state: what has been read of the tree waits, with the
parts before it, to be completed. -/
def IsRead : Rank → List (Lexeme α) → Expr α → Prop
  | .primary, ls, e => ∀ p outer, Reads (.operand p outer) ls (.value e p outer)
  | .unary, ls, e => ∀ p outer, ∃ n,
      Reads (.operand p outer) ls (.operator (p.signed e) ⟨p.sum, p.product, n⟩ outer)
  | .product, ls, e => ∀ left outer, ∃ last product n,
      Reads (.operand ⟨left, none, 0⟩ outer) ls (.operator last ⟨left, product, n⟩ outer) ∧
      Pending.complete product last = e
  | .sum, ls, e => ∀ outer, ∃ last p,
      Reads (.operand .fresh outer) ls (.operator last p outer) ∧ p.total last = e

theorem signed_negate (p : Pending α) (e : Expr α) :
    p.signed e.negate = Pending.signed ⟨p.sum, p.product, p.minuses + 1⟩ e := by
  simp only [Pending.signed]
  induction p.minuses with
  | zero => rfl
  | succ n ih => exact congrArg Expr.negate ih

/-- Arguments, from behind the opening bracket to behind the closing one. -/
theorem reads_arguments (f : Function) (p : Pending α) (outer : Outer α)
    {args : List (List (Lexeme α) × Expr α)} (h : ∀ a ∈ args, IsRead .sum a.1 a.2) :
    Reads (.operand .fresh ((.call f [], p) :: outer))
      (List.intercalate [.mark ','] (args.map Prod.fst) ++ [.mark ')'])
      (.value (.call f (args.map Prod.snd)) p outer) := by
  cases args with
  | nil => exact reads_one fun source => rfl
  | cons a args =>
    -- from an argument on, behind those already read
    suffices hmore : ∀ before,
        Reads (.operand .fresh ((.call f before, p) :: outer))
          (List.intercalate [.mark ','] ((a :: args).map Prod.fst) ++ [.mark ')'])
          (.value (.call f (before ++ (a :: args).map Prod.snd)) p outer) from hmore []
    induction args generalizing a with
    | nil =>
      intro before
      obtain ⟨last, p', hread, htotal⟩ := h a List.mem_cons_self ((.call f before, p) :: outer)
      rw [List.map_singleton, List.intercalate_singleton, List.map_singleton, ← htotal]
      exact hread.trans (reads_one step_closeCall)
    | cons b args ih =>
      intro before
      obtain ⟨last, p', hread, htotal⟩ := h a List.mem_cons_self ((.call f before, p) :: outer)
      have hrest := ih b (fun c hc => h c (List.mem_cons_of_mem _ hc)) (before ++ [a.2])
      rw [List.append_assoc, List.singleton_append, ← List.map_cons] at hrest
      rw [List.map_cons, List.map_cons, List.intercalate_cons_cons, ← List.map_cons,
        List.append_assoc, List.append_assoc]
      rw [← htotal] at hrest
      exact hread.trans (reads_cons step_comma hrest)

/-- **Every phrase is read.** -/
theorem Phrase.read {rank : Rank} {ls : List (Lexeme α)} {e : Expr α} (h : Phrase rank ls e) :
    IsRead rank ls e := by
  induction h with
  | ofProduct _ ih =>
    intro outer
    obtain ⟨last, product, n, hread, rfl⟩ := ih none outer
    exact ⟨last, ⟨none, product, n⟩, hread, rfl⟩
  | @sum op ls ms l r hop _ _ ihl ihr =>
    intro outer
    obtain ⟨last, p, hread, rfl⟩ := ihl outer
    obtain ⟨last', product, n, hread', rfl⟩ := ihr (some (p.total last, op)) outer
    exact ⟨last', ⟨_, product, n⟩,
      hread.trans (reads_cons (fun source => step_sumOperator source hop) hread'), rfl⟩
  | ofUnary _ ih =>
    intro left outer
    obtain ⟨n, hread⟩ := ih ⟨left, none, 0⟩ outer
    exact ⟨_, none, n, hread, rfl⟩
  | @product op ls ms l r hop _ _ ihl ihr =>
    intro left outer
    obtain ⟨last, product, n, hread, rfl⟩ := ihl left outer
    obtain ⟨n', hread'⟩ := ihr ⟨left, some (Pending.complete product last, op), 0⟩ outer
    exact ⟨_, _, n',
      hread.trans (reads_cons (fun source => step_productOperator source hop) hread'), rfl⟩
  | ofPrimary _ ih => exact fun p outer => ⟨p.minuses, ih p outer⟩
  | minus _ ih =>
    intro p outer
    obtain ⟨n, hread⟩ := ih ⟨p.sum, p.product, p.minuses + 1⟩ outer
    rw [← signed_negate] at hread
    exact ⟨n, reads_cons step_minus hread⟩
  | number x => exact fun p outer => reads_one fun source => rfl
  | text s => exact fun p outer => reads_one fun source => rfl
  | currentDate => exact fun p outer => reads_one step_currentDate
  | group _ ih =>
    intro p outer
    obtain ⟨last, p', hread, rfl⟩ := ih ((.group, p) :: outer)
    exact reads_cons step_open (hread.trans (reads_one step_closeGroup))
  | call f _ ih =>
    intro p outer
    refine reads_cons (fun source => step_name source f) (reads_cons (fun source => ?_)
      (reads_arguments f p outer ih))
    rfl

theorem Phrase.run_eq {ts : List (Token α)} {e : Expr α}
    (h : Phrase .sum (ts.map Token.lexeme) e) : run .start ts = .ok e := by
  obtain ⟨last, p, hread, rfl⟩ := h.read []
  rw [run, State.start, hread ts rfl]
  rfl

end Parser

end FactorPortfolio
