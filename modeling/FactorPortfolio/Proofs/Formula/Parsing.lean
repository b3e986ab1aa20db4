import FactorPortfolio.Proofs.Except
import FactorPortfolio.Proofs.Formula.Grammar
import FactorPortfolio.Proofs.Formula.Spelling

/-!
# The parser reads its grammar and nothing else

`Reached s ls` says what the lexemes `ls` are if they have led the parser to the state `s`: the left
parts of sums and products that wait for an operand, with the brackets around them.  One token keeps
it (`reached_step`), so what a whole run accepts is a sum (`phrase_of_run`).

With `Phrase.run_eq` for the other direction, and with the spelling of lexemes, this is
`parse_eq_ok_iff`: a text is read as a tree if and only if it spells a sum with that tree.
-/

namespace FactorPortfolio.Parser

variable {α : Type} [Scalar α]

/-! ### What has been read in a state -/

inductive LeftPart (rank : Rank) (additive : Bool) :
    Option (Expr α × Operator) → List (Lexeme α) → Prop
  | nothing : LeftPart rank additive none []
  | some {op : Operator} {l : Expr α} {ls : List (Lexeme α)} (hop : op.isAdditive = additive)
      (h : Phrase rank ls l) : LeftPart rank additive (some (l, op)) (ls ++ [.mark op.symbol])

/-- What waits for an operand: parts of a sum and of a product, and minus signs. -/
inductive Awaits : Pending α → List (Lexeme α) → Prop
  | intro {p : Pending α} {ls ms : List (Lexeme α)} (hsum : LeftPart .sum true p.sum ls)
      (hproduct : LeftPart .product false p.product ms) :
      Awaits p (ls ++ ms ++ List.replicate p.minuses (.mark '-'))

/-- What stands in front of the innermost open bracket, the bracket included. -/
inductive Open : Outer α → List (Lexeme α) → Prop
  | nil : Open [] []
  | group {p : Pending α} {outer : Outer α} {ls ms : List (Lexeme α)} (h : Open outer ls)
      (hp : Awaits p ms) : Open ((.group, p) :: outer) (ls ++ ms ++ [.mark '('])
  | call {f : Function} {args : List (List (Lexeme α) × Expr α)} {p : Pending α} {outer : Outer α}
      {ls ms : List (Lexeme α)} (h : Open outer ls) (hp : Awaits p ms)
      (hargs : ∀ a ∈ args, Phrase .sum a.1 a.2) :
      Open ((.call f (args.map Prod.snd), p) :: outer)
        (ls ++ ms ++ [.word f.name, .mark '('] ++ args.flatMap fun a => a.1 ++ [.mark ','])

/-- What has been read in a state. -/
inductive Reached : State α → List (Lexeme α) → Prop
  | operand {p : Pending α} {outer : Outer α} {ls ms : List (Lexeme α)} (h : Open outer ls)
      (hp : Awaits p ms) : Reached (.operand p outer) (ls ++ ms)
  | opening {f : Function} {p : Pending α} {outer : Outer α} {ls ms : List (Lexeme α)}
      (h : Open outer ls) (hp : Awaits p ms) :
      Reached (.opening f p outer) (ls ++ ms ++ [.word f.name])
  | operator {e : Expr α} {p : Pending α} {outer : Outer α} {ls as bs us : List (Lexeme α)}
      (h : Open outer ls) (hsum : LeftPart .sum true p.sum as)
      (hproduct : LeftPart .product false p.product bs) (he : Phrase .unary us e) :
      Reached (.operator e p outer) (ls ++ (as ++ (bs ++ us)))

/-! ### Operands complete what waits for them -/

section

variable {left : Option (Expr α × Operator)} {ls ms : List (Lexeme α)} {e : Expr α}

theorem LeftPart.sum (h : LeftPart .sum true left ls) (he : Phrase .product ms e) :
    Phrase .sum (ls ++ ms) (Pending.complete left e) := by
  cases h with
  | nothing => exact .ofProduct he
  | some hop hl =>
    rw [List.append_assoc, List.singleton_append]
    exact .sum hop hl he

theorem LeftPart.product (h : LeftPart .product false left ls) (he : Phrase .unary ms e) :
    Phrase .product (ls ++ ms) (Pending.complete left e) := by
  cases h with
  | nothing => exact .ofUnary he
  | some hop hl =>
    rw [List.append_assoc, List.singleton_append]
    exact .product hop hl he

theorem Phrase.signed (p : Pending α) (he : Phrase .unary ls e) :
    Phrase .unary (List.replicate p.minuses (.mark '-') ++ ls) (p.signed e) := by
  rw [Pending.signed]
  induction p.minuses with
  | zero => exact he
  | succ n ih => exact .minus ih

theorem awaits_fresh : Awaits (.fresh : Pending α) [] :=
  @Awaits.intro _ _ .fresh [] [] .nothing .nothing

theorem Awaits.minus {p : Pending α} (h : Awaits p ls) :
    Awaits ⟨p.sum, p.product, p.minuses + 1⟩ (ls ++ [.mark '-']) := by
  obtain ⟨hsum, hproduct⟩ := h
  rw [List.append_assoc, ← List.replicate_succ']
  exact .intro hsum hproduct

theorem Awaits.eq_nil_of_isFresh {p : Pending α} (h : Awaits p ls) (hp : p.isFresh = true) :
    ls = [] := by
  obtain ⟨sum, product, minuses⟩ := p
  simp only [Pending.isFresh, Bool.and_eq_true, Option.isNone_iff_eq_none, beq_iff_eq] at hp
  obtain ⟨⟨rfl, rfl⟩, rfl⟩ := hp
  obtain ⟨hsum, hproduct⟩ := h
  cases hsum
  cases hproduct
  rfl

/-- The arguments of a call as they have been read, and what stands in front of it. -/
theorem Open.arguments {f : Function} {es : List (Expr α)} {p : Pending α} {outer : Outer α}
    (h : Open ((.call f es, p) :: outer) ls) :
    ∃ (args : List (List (Lexeme α) × Expr α)) (ks ms : List (Lexeme α)), es = args.map Prod.snd ∧
      ls = ks ++ ms ++ [.word f.name, .mark '('] ++ (args.flatMap fun a => a.1 ++ [.mark ',']) ∧
      Open outer ks ∧ Awaits p ms ∧ ∀ a ∈ args, Phrase .sum a.1 a.2 := by
  generalize ho : (Enclosure.call f es, p) :: outer = o at h
  cases h with
  | nil => cases ho
  | group h hp => cases ho
  | call h hp hargs =>
    cases ho
    exact ⟨_, _, _, rfl, rfl, h, hp, hargs⟩

theorem reached_value {p : Pending α} {outer : Outer α} {us : List (Lexeme α)} (h : Open outer ls)
    (hp : Awaits p ms) (he : Phrase .primary us e) :
    Reached (.value e p outer) (ls ++ ms ++ us) := by
  obtain ⟨hsum, hproduct⟩ := hp
  have hread := Reached.operator h hsum hproduct (Phrase.signed p (.ofPrimary he))
  simpa only [State.value, List.append_assoc] using hread

end

/-! ### One token -/

section

variable {p : Pending α} {outer : Outer α} {e : Expr α} {ls : List (Lexeme α)} {t : Token α}
  {s' : State α}

theorem eq_name_of_ofName? {w : String} {f : Function} (h : Function.ofName? w = some f) :
    w = f.name := by
  have hfound := List.find?_some h
  exact (beq_iff_eq.1 hfound).symm

theorem reached_stepOperand (h : Reached (.operand p outer) ls)
    (hstep : stepOperand p outer t = .ok s') : Reached s' (ls ++ [t.lexeme]) := by
  obtain ⟨ho, hp⟩ := h
  obtain ⟨l, source⟩ := t
  cases l with
  | number x =>
    cases hstep
    exact reached_value ho hp (.number x)
  | text s =>
    cases hstep
    exact reached_value ho hp (.text s)
  | lonePoint => cases hstep
  | openText => cases hstep
  | word w =>
    simp only [stepOperand] at hstep
    split at hstep
    · next hw =>
      cases hstep
      rw [beq_iff_eq.1 hw]
      exact reached_value ho hp .currentDate
    · split at hstep
      · next f hf =>
        cases hstep
        rw [eq_name_of_ofName? hf]
        exact .opening ho hp
      · cases hstep
  | mark c =>
    simp only [stepOperand] at hstep
    split at hstep
    · next hc =>
      cases hstep
      rw [beq_iff_eq.1 hc, List.append_assoc]
      exact .operand ho hp.minus
    · split at hstep
      · next hc =>
        cases hstep
        rw [beq_iff_eq.1 hc]
        have hread := Reached.operand (.group ho hp) awaits_fresh
        simpa using hread
      · split at hstep
        · next f p' outer' hfresh _ _ =>
          -- the bracket closes behind the opening one
          cases hstep
          obtain ⟨args, ks, ms, hargs, rfl, ho', hp', hnone⟩ := ho.arguments
          obtain rfl := List.map_eq_nil_iff.1 hargs.symm
          obtain rfl := hp.eq_nil_of_isFresh hfresh
          have hread := reached_value ho' hp' (.call f hnone)
          simpa using hread
        · cases hstep

theorem reached_stepOpening {f : Function} (h : Reached (.opening f p outer) ls)
    (hstep : stepOpening f p outer t = .ok s') : Reached s' (ls ++ [t.lexeme]) := by
  obtain ⟨l, source⟩ := t
  cases h with
  | opening ho hp =>
    simp only [stepOpening] at hstep
    split at hstep
    · cases hstep
      have hnone : ∀ a ∈ ([] : List (List (Lexeme α) × Expr α)), Phrase .sum a.1 a.2 := by simp
      have hread := Reached.operand (.call (f := f) ho hp hnone) awaits_fresh
      simpa using hread
    · cases hstep

theorem intercalate_append_singleton {β : Type} (x : β) (parts : List (List β)) (last : List β) :
    List.intercalate [x] (parts ++ [last]) = (parts.flatMap (· ++ [x])) ++ last := by
  induction parts with
  | nil => simp
  | cons part parts ih =>
    cases parts with
    | nil => simp
    | cons part' parts =>
      rw [List.cons_append, List.cons_append, List.intercalate_cons_cons, ← List.cons_append, ih]
      simp only [List.flatMap_cons, List.append_assoc]

theorem reached_stepEnd {us : List (Lexeme α)} (ho : Open outer ls) (he : Phrase .sum us e)
    (hstep : stepEnd e outer t = .ok s') : Reached s' (ls ++ us ++ [t.lexeme]) := by
  obtain ⟨l, source⟩ := t
  simp only [stepEnd] at hstep
  split at hstep
  · cases hstep
  · cases hstep
    cases ho with
    | group ho hp =>
      have hread := reached_value ho hp (.group he)
      simpa using hread
  · cases hstep
  · next f args p outer' =>
    cases hstep
    obtain ⟨args, ks, ms, rfl, rfl, ho, hp, hargs⟩ := ho.arguments
    have hall : ∀ a ∈ args ++ [(us, e)], Phrase .sum a.1 a.2 :=
      List.forall_mem_append.2 ⟨hargs, by simpa using he⟩
    have hread := reached_value ho hp (.call f hall)
    rw [List.map_append, List.map_append, List.map_singleton, List.map_singleton,
      intercalate_append_singleton, List.flatMap_map] at hread
    simpa using hread
  · next f args p outer' =>
    cases hstep
    obtain ⟨args, ks, ms, rfl, rfl, ho, hp, hargs⟩ := ho.arguments
    have hall : ∀ a ∈ args ++ [(us, e)], Phrase .sum a.1 a.2 :=
      List.forall_mem_append.2 ⟨hargs, by simpa using he⟩
    have hread := Reached.operand (.call (f := f) ho hp hall) awaits_fresh
    rw [List.map_append, List.map_singleton] at hread
    simpa using hread
  · cases hstep

theorem eq_symbol_of_productOperator? {c : Char} {op : Operator}
    (h : productOperator? c = some op) : c = op.symbol ∧ op.isAdditive = false := by
  simp only [productOperator?] at h
  split at h <;> cases h <;> exact ⟨rfl, rfl⟩

theorem eq_symbol_of_sumOperator? {c : Char} {op : Operator} (h : sumOperator? c = some op) :
    c = op.symbol ∧ op.isAdditive = true := by
  simp only [sumOperator?] at h
  split at h <;> cases h <;> exact ⟨rfl, rfl⟩

theorem reached_stepOperator (h : Reached (.operator e p outer) ls)
    (hstep : stepOperator e p outer t = .ok s') : Reached s' (ls ++ [t.lexeme]) := by
  cases h with
  | @operator _ _ _ ls as bs us ho hsum hproduct he =>
    have hfactor := hproduct.product he
    have htotal := hsum.sum hfactor
    obtain ⟨l, source⟩ := t
    cases l with
    | mark c =>
      simp only [stepOperator] at hstep
      split at hstep
      · next op hop =>
        cases hstep
        obtain ⟨rfl, hadditive⟩ := eq_symbol_of_productOperator? hop
        have hp : Awaits ⟨p.sum, some (p.factor e, op), 0⟩ _ :=
          .intro hsum (.some hadditive hfactor)
        have hread := Reached.operand ho hp
        simpa using hread
      · next op _ hop =>
        cases hstep
        obtain ⟨rfl, hadditive⟩ := eq_symbol_of_sumOperator? hop
        have hp : Awaits ⟨some (p.total e, op), none, 0⟩ _ :=
          .intro (.some hadditive htotal) .nothing
        have hread := Reached.operand ho hp
        simpa using hread
      · exact reached_stepEnd ho htotal hstep
    | number x => exact reached_stepEnd ho htotal hstep
    | lonePoint => exact reached_stepEnd ho htotal hstep
    | text s => exact reached_stepEnd ho htotal hstep
    | openText => exact reached_stepEnd ho htotal hstep
    | word w => exact reached_stepEnd ho htotal hstep

/-- **One token keeps what has been read.** -/
theorem reached_step {s : State α} (h : Reached s ls) (hstep : step s t = .ok s') :
    Reached s' (ls ++ [t.lexeme]) := by
  cases s with
  | operand p outer => exact reached_stepOperand h hstep
  | opening f p outer => exact reached_stepOpening h hstep
  | operator e p outer => exact reached_stepOperator h hstep

end

/-! ### Whole texts -/

theorem reached_foldlM {s s' : State α} {ls : List (Lexeme α)} {ts : List (Token α)}
    (h : Reached s ls) (hfold : ts.foldlM step s = .ok s') :
    Reached s' (ls ++ ts.map Token.lexeme) := by
  induction ts generalizing s ls with
  | nil =>
    obtain rfl := Except.pure_eq_ok_iff.1 hfold
    simpa using h
  | cons t ts ih =>
    rw [List.foldlM_cons] at hfold
    obtain ⟨s₁, hstep, hfold⟩ := Except.bind_eq_ok_iff.1 hfold
    have hread := ih (reached_step h hstep) hfold
    simpa using hread

theorem phrase_of_finish {s : State α} {ls : List (Lexeme α)} {e : Expr α} (h : Reached s ls)
    (hfinish : finish s = .ok e) : Phrase .sum ls e := by
  cases h with
  | operand ho hp => cases hfinish
  | opening ho hp => cases hfinish
  | operator ho hsum hproduct he =>
    cases ho with
    | nil =>
      cases hfinish
      exact hsum.sum (hproduct.product he)
    | group ho hp => cases hfinish
    | call ho hp hargs => cases hfinish

/-- **What a run accepts is a sum.** -/
theorem phrase_of_run {ts : List (Token α)} {e : Expr α} (h : run .start ts = .ok e) :
    Phrase .sum (ts.map Token.lexeme) e := by
  obtain ⟨s, hfold, hfinish⟩ := Except.bind_eq_ok_iff.1 h
  have hstart : Reached (State.start : State α) [] := .operand .nil awaits_fresh
  exact phrase_of_finish (reached_foldlM hstart hfold) hfinish

theorem symbol_mem_marks (op : Operator) : op.symbol ∈ Token.marks := by
  cases op <;> decide

theorem mem_intercalate {β : Type} {x a : β} {parts : List (List β)}
    (h : a ∈ List.intercalate [x] parts) : a = x ∨ ∃ part ∈ parts, a ∈ part := by
  induction parts with
  | nil => cases h
  | cons part parts ih =>
    cases parts with
    | nil => exact .inr ⟨part, List.mem_cons_self, by simpa using h⟩
    | cons part' parts =>
      rw [List.intercalate_cons_cons, List.mem_append, List.mem_append, List.mem_singleton] at h
      rcases h with (h | h) | h
      · exact .inr ⟨part, List.mem_cons_self, h⟩
      · exact .inl h
      · refine (ih h).imp_right ?_
        rintro ⟨p, hp, ha⟩
        exact ⟨p, List.mem_cons_of_mem _ hp, ha⟩

/-- What holds of numbers, texts, names and signs holds of every lexeme of a phrase. -/
theorem Phrase.forall_mem {q : Lexeme α → Prop} (number : ∀ x, q (.number x))
    (text : ∀ s, q (.text s)) (currentDate : q (.word Expr.currentDateName))
    (name : ∀ f : Function, q (.word f.name)) (mark : ∀ c ∈ Token.marks, q (.mark c))
    {rank : Rank} {ls : List (Lexeme α)} {e : Expr α} (h : Phrase rank ls e) : ∀ l ∈ ls, q l := by
  induction h with
  | ofProduct _ ih => exact ih
  | @sum op _ _ _ _ _ _ _ ihl ihr =>
    exact List.forall_mem_append.2
      ⟨ihl, List.forall_mem_cons.2 ⟨mark _ (symbol_mem_marks op), ihr⟩⟩
  | ofUnary _ ih => exact ih
  | @product op _ _ _ _ _ _ _ ihl ihr =>
    exact List.forall_mem_append.2
      ⟨ihl, List.forall_mem_cons.2 ⟨mark _ (symbol_mem_marks op), ihr⟩⟩
  | ofPrimary _ ih => exact ih
  | minus _ ih => exact List.forall_mem_cons.2 ⟨mark _ (symbol_mem_marks .sub), ih⟩
  | number x => exact List.forall_mem_singleton.2 (number x)
  | text s => exact List.forall_mem_singleton.2 (text s)
  | currentDate => exact List.forall_mem_singleton.2 currentDate
  | group _ ih =>
    have hclose := List.forall_mem_singleton.2 (mark ')' (by decide))
    exact List.forall_mem_cons.2 ⟨mark '(' (by decide), List.forall_mem_append.2 ⟨ih, hclose⟩⟩
  | call f _ ih =>
    intro l hl
    simp only [List.mem_cons, List.mem_append, List.not_mem_nil, or_false] at hl
    rcases hl with rfl | rfl | hl | rfl
    · exact name f
    · exact mark '(' (by decide)
    · rcases mem_intercalate hl with rfl | ⟨part, hpart, hl⟩
      · exact mark ',' (by decide)
      · obtain ⟨a, ha, rfl⟩ := List.mem_map.1 hpart
        exact ih a ha l hl
    · exact mark ')' (by decide)

theorem Phrase.isProper {rank : Rank} {ls : List (Lexeme α)} {e : Expr α} (h : Phrase rank ls e) :
    ∀ l ∈ ls, l.IsProper :=
  h.forall_mem (fun _ => trivial) (fun _ => trivial) trivial (fun _ => trivial) fun _ hc => hc

theorem parse_eq_ok_iff_run {source : String} {e : Expr α} :
    Expr.parse source = .ok e ↔ run .start (Token.ofChars source.toList) = .ok e := by
  rw [Expr.parse]
  split <;> simp_all

/-- **The parser accepts exactly its grammar**, with the tree that the grammar gives. -/
theorem parse_eq_ok_iff (source : String) (e : Expr α) : Expr.parse source = .ok e ↔
    ∃ ls, Token.Spelled ls source.toList ∧ Phrase .sum ls e := by
  rw [parse_eq_ok_iff_run]
  constructor
  · intro h
    have hphrase := phrase_of_run h
    exact ⟨_, (Token.map_lexeme_eq_iff hphrase.isProper).1 rfl, hphrase⟩
  · rintro ⟨ls, hspelled, hphrase⟩
    obtain rfl := (Token.map_lexeme_eq_iff hphrase.isProper).2 hspelled
    exact hphrase.run_eq

example : Expr.parse "currentDate - -'a' * price('b')" =
    .ok (.binary .sub (.currentDate : Expr α)
      (.binary .mul (.neg (.text "a")) (.call .price [.text "b"]))) := by cbv

end FactorPortfolio.Parser
