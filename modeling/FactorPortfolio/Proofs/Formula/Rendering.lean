import FactorPortfolio.Proofs.Formula.Expr
import FactorPortfolio.Proofs.Formula.Parsing
import FactorPortfolio.Scalar.Binary64

/-!
# A formula that is shown reads back

`Expr.render` puts brackets around every operation, so that no precedence is needed to read it.
`Shows ls e` says that the lexemes `ls` are a phrase with the tree `e` and spell what is shown of
it, whatever may follow an operand.  It is proved by induction over the tree (`exists_shows`), where
the numbers of the tree have to be written as numerals (`IsNumeral`) and its texts must not hold the
quote that is put around them.

The parser makes no tree with a minus in front of a number (`Phrase.isFolded`), which would read
back as a number, so all that it makes reads back: `parse_render`.
-/

namespace FactorPortfolio

open Text

variable {α : Type} [Scalar α]

/-- The number is shown as a numeral that reads back as the number: an optional minus, and digits
with at most one point. -/
def IsNumeral (x : α) : Prop :=
  ∃ w, Token.IsNumber w ∧
    ((Scalar.text x).toList = w ∧ Token.numberOf w = x ∨
      (Scalar.text x).toList = '-' :: w ∧ -Token.numberOf w = x)

namespace Expr

theorem isFolded_negate {e : Expr α} (h : e.IsFolded) : e.negate.IsFolded := by
  intro x hx
  cases e with
  | number y => simp [negate, nodes] at hx
  | text s => simp [negate, nodes] at hx
  | currentDate => simp [negate, nodes] at hx
  | neg e => exact h x (by simpa [negate, nodes] using hx)
  | binary op l r => exact h x (by simpa [negate, nodes] using hx)
  | call f args => exact h x (by simpa [negate, nodes] using hx)

end Expr

namespace Parser

/-- **The parser folds every minus into the number behind it.** -/
theorem Phrase.isFolded {rank : Rank} {ls : List (Lexeme α)} {e : Expr α} (h : Phrase rank ls e) :
    e.IsFolded := by
  induction h with
  | ofProduct _ ih => exact ih
  | sum _ _ _ ihl ihr =>
    intro x hx
    simp only [Expr.nodes, List.mem_cons, List.mem_append, reduceCtorEq, false_or] at hx
    exact hx.elim (ihl x) (ihr x)
  | ofUnary _ ih => exact ih
  | product _ _ _ ihl ihr =>
    intro x hx
    simp only [Expr.nodes, List.mem_cons, List.mem_append, reduceCtorEq, false_or] at hx
    exact hx.elim (ihl x) (ihr x)
  | ofPrimary _ ih => exact ih
  | minus _ ih => exact Expr.isFolded_negate ih
  | number x => simp [Expr.IsFolded, Expr.nodes]
  | text s => simp [Expr.IsFolded, Expr.nodes]
  | currentDate => simp [Expr.IsFolded, Expr.nodes]
  | group _ ih => exact ih
  | call f _ ih =>
    intro x hx
    simp only [Expr.nodes, List.mem_cons, reduceCtorEq, false_or, Expr.mem_nodesOf,
      List.mem_map] at hx
    obtain ⟨_, ⟨a, ha, rfl⟩, hx⟩ := hx
    exact ih a ha x hx

/-! ### Pieces of a source -/

open Token (Spelled Spells)

/-- Neither a number nor a word goes on here. -/
def Ends (rest : List Char) : Prop :=
  ∀ c ∈ rest.head?, isDigit c = false ∧ c ≠ '.' ∧ Token.isWordChar c = false

theorem ends_of_mark {c : Char} (h : c ∈ Token.marks) (rest : List Char) : Ends (c :: rest) := by
  rintro _ ⟨⟩
  have hdigit := Token.isDigit_of_mem_marks c h
  simp only [Bool.or_eq_false_iff, beq_eq_false_iff_ne] at hdigit
  exact ⟨hdigit.1, hdigit.2, Token.isWordChar_of_mem_marks c h⟩

theorem ends_of_blank (rest : List Char) : Ends (' ' :: rest) := by
  rintro _ ⟨⟩
  exact ⟨rfl, by decide, by decide +kernel⟩

theorem spelled_blank {ls : List (Lexeme α)} {cs : List Char} (h : Spelled ls cs) :
    Spelled ls (' ' :: cs) := by
  cases h with
  | nil h => exact .nil (List.forall_mem_cons.2 ⟨rfl, h⟩)
  | cons h hl hls => exact .cons (List.forall_mem_cons.2 ⟨rfl, h⟩) hl hls

theorem spelled_lexeme {l : Lexeme α} {ls : List (Lexeme α)} {w rest : List Char}
    (hl : Spells l w rest) (hls : Spelled ls rest) : Spelled (l :: ls) (w ++ rest) := by
  have hblanks : ∀ c ∈ ([] : List Char), isBlank c = true := fun c hc => absurd hc List.not_mem_nil
  exact .cons hblanks hl hls

theorem spelled_mark {c : Char} (hc : c ∈ Token.marks) {ls : List (Lexeme α)} {rest : List Char}
    (hls : Spelled ls rest) : Spelled (.mark c :: ls) (c :: rest) :=
  spelled_lexeme (.mark hc) hls

theorem spelled_number {w : List Char} (hw : Token.IsNumber w) {ls : List (Lexeme α)}
    {rest : List Char} (hrest : Ends rest) (hls : Spelled ls rest) :
    Spelled (.number (Token.numberOf w) :: ls) (w ++ rest) := by
  refine spelled_lexeme (.number hw fun c hc => ?_) hls
  obtain ⟨hdigit, hpoint, _⟩ := hrest c hc
  exact Token.not_isNumber_append hdigit fun heq => absurd heq hpoint

theorem spelled_word {w : String} (hw : w.toList.all Token.isWordChar = true)
    (hstart : ∃ c ∈ w.toList.head?, isDigit c = false) {ls : List (Lexeme α)} {rest : List Char}
    (hrest : Ends rest) (hls : Spelled ls rest) :
    Spelled (.word w :: ls) (w.toList ++ rest) := by
  obtain ⟨c, hc, hdigit⟩ := hstart
  obtain ⟨cs, hcs⟩ := List.head?_eq_some_iff.1 hc
  rw [hcs] at hw
  have hspells : Spells (.word (String.ofList (c :: cs)) : Lexeme α) (c :: cs) rest :=
    .word hdigit (List.all_eq_true.1 hw) fun d hd => (hrest d hd).2.2
  rw [hcs, ← String.ofList_toList (s := w), hcs]
  exact spelled_lexeme hspells hls

theorem spelled_name (f : Function) {ls : List (Lexeme α)} {rest : List Char} (hrest : Ends rest)
    (hls : Spelled ls rest) : Spelled (.word f.name :: ls) (f.name.toList ++ rest) := by
  have hword : f.name.toList.all Token.isWordChar = true := by
    cases f <;> decide +kernel
  have hstart : ∃ c ∈ f.name.toList.head?, isDigit c = false := by
    cases f <;> exact ⟨_, rfl, rfl⟩
  exact spelled_word hword hstart hrest hls

/-! ### What is shown of a tree -/

/-- The lexemes are a phrase with the tree, and they spell what is shown of it. -/
structure Shows (ls : List (Lexeme α)) (e : Expr α) : Prop where
  phrase : Phrase .unary ls e
  spelled : ∀ {ms : List (Lexeme α)} {rest : List Char}, Ends rest → Spelled ms rest →
    Spelled (ls ++ ms) (e.render.toList ++ rest)

theorem Shows.sum {ls : List (Lexeme α)} {e : Expr α} (h : Shows ls e) : Phrase .sum ls e :=
  .ofProduct (.ofUnary h.phrase)

theorem shows_number {x : α} (h : IsNumeral x) : ∃ ls, Shows ls (.number x) := by
  obtain ⟨w, hw, ⟨htext, rfl⟩ | ⟨htext, rfl⟩⟩ := h
  · refine ⟨[.number (Token.numberOf w)], .ofPrimary (.number _), fun hrest hms => ?_⟩
    rw [Expr.render, htext]
    exact spelled_number hw hrest hms
  · refine ⟨[.mark '-', .number (Token.numberOf w)], .minus (.ofPrimary (.number _)),
      fun hrest hms => ?_⟩
    rw [Expr.render, htext]
    exact spelled_mark (by decide) (spelled_number hw hrest hms)

theorem shows_text {s : String} (h : '"' ∉ s.toList) :
    Shows [.text s] (.text s : Expr α) := by
  refine ⟨.ofPrimary (.text s), fun {ms rest} _ hms => ?_⟩
  have hspells : Spells (.text (String.ofList s.toList) : Lexeme α)
      ('"' :: (s.toList ++ ['"'])) rest := .text (.inl rfl) h
  rw [String.ofList_toList] at hspells
  have hread := spelled_lexeme hspells hms
  rw [Expr.render]
  simpa using hread

theorem shows_currentDate :
    Shows [.word Expr.currentDateName] (.currentDate : Expr α) := by
  refine ⟨.ofPrimary .currentDate, fun hrest hms => ?_⟩
  rw [Expr.render]
  exact spelled_word (by decide +kernel) ⟨'c', rfl, rfl⟩ hrest hms

theorem Shows.neg {ls : List (Lexeme α)} {e : Expr α} (h : Shows ls e)
    (hfolded : (Expr.neg e).IsFolded) : Shows (.mark '-' :: ls) (.neg e) := by
  have hnegate : e.negate = .neg e := by
    cases e with
    | number x => exact absurd List.mem_cons_self (hfolded x)
    | _ => rfl
  refine ⟨hnegate ▸ .minus h.phrase, fun hrest hms => ?_⟩
  have hread := spelled_mark (c := '-') (by decide) (h.spelled hrest hms)
  rw [Expr.render]
  simpa using hread

theorem phrase_binary {op : Operator} {ls ms : List (Lexeme α)} {l r : Expr α} (hl : Shows ls l)
    (hr : Shows ms r) : Phrase .sum (ls ++ .mark op.symbol :: ms) (.binary op l r) := by
  cases hop : op.isAdditive with
  | true => exact .sum hop hl.sum (.ofUnary hr.phrase)
  | false => exact .ofProduct (.product hop (.ofUnary hl.phrase) hr.phrase)

theorem Shows.binary (op : Operator) {ls ms : List (Lexeme α)} {l r : Expr α} (hl : Shows ls l)
    (hr : Shows ms r) :
    Shows (.mark '(' :: (ls ++ .mark op.symbol :: ms ++ [.mark ')'])) (.binary op l r) := by
  refine ⟨.ofPrimary (.group (phrase_binary hl hr)), fun {ns rest} _ hns => ?_⟩
  have hclose := spelled_mark (c := ')') (by decide) hns
  have hright := hr.spelled (ends_of_mark (by decide) rest) hclose
  have hop := spelled_mark (symbol_mem_marks op) (spelled_blank hright)
  have hleft := hl.spelled (ends_of_blank _) (spelled_blank hop)
  have hread := spelled_mark (c := '(') (by decide) hleft
  rw [Expr.render]
  simpa using hread

theorem exists_arguments {args : List (Expr α)} (h : ∀ e ∈ args, ∃ ls, Shows ls e) :
    ∃ parts : List (List (Lexeme α) × Expr α), parts.map Prod.snd = args ∧
      (∀ a ∈ parts, Phrase .sum a.1 a.2) ∧
      ∀ {ms : List (Lexeme α)} {rest : List Char}, Ends rest → Spelled ms rest →
        Spelled (List.intercalate [.mark ','] (parts.map Prod.fst) ++ ms)
          ((Expr.renderArgs args).toList ++ rest) := by
  induction args with
  | nil => exact ⟨[], rfl, by simp, fun _ hms => by simpa [Expr.renderArgs] using hms⟩
  | cons e args ih =>
    obtain ⟨⟨ls, he⟩, hargs⟩ := List.forall_mem_cons.1 h
    obtain ⟨parts, hparts, hphrases, hspelled⟩ := ih hargs
    refine ⟨(ls, e) :: parts, by rw [List.map_cons, hparts],
      List.forall_mem_cons.2 ⟨he.sum, hphrases⟩, fun {ms rest} hrest hms => ?_⟩
    cases parts with
    | nil =>
      obtain rfl : args = [] := hparts.symm
      simpa [Expr.renderArgs] using he.spelled hrest hms
    | cons part parts =>
      obtain ⟨e', args, rfl⟩ : ∃ e' args', args = e' :: args' := ⟨_, _, hparts.symm⟩
      have hcomma := spelled_mark (c := ',') (by decide)
        (spelled_blank (hspelled hrest hms))
      have hread := he.spelled (ends_of_mark (by decide) _) hcomma
      rw [List.map_cons, List.map_cons, List.intercalate_cons_cons, ← List.map_cons,
        Expr.renderArgs.eq_def]
      simpa using hread

theorem shows_call (f : Function) {args : List (Expr α)} (h : ∀ e ∈ args, ∃ ls, Shows ls e) :
    ∃ ls, Shows ls (.call f args) := by
  obtain ⟨parts, rfl, hphrases, hspelled⟩ := exists_arguments h
  refine ⟨_, .ofPrimary (.call f hphrases), fun {ms rest} hrest hms => ?_⟩
  have hclose := spelled_mark (c := ')') (by decide) hms
  have hargs := hspelled (ends_of_mark (by decide) rest) hclose
  have hopen := spelled_mark (c := '(') (by decide) hargs
  have hread := spelled_name f (ends_of_mark (by decide) _) hopen
  rw [Expr.render]
  simpa using hread

/-- **Every tree without a minus in front of a number is shown as a phrase of its own.** -/
theorem exists_shows (e : Expr α) (hfolded : e.IsFolded)
    (hnumbers : ∀ x, .number x ∈ e.nodes → IsNumeral x)
    (htexts : ∀ s, .text s ∈ e.nodes → '"' ∉ s.toList) : ∃ ls, Shows ls e := by
  induction e using Expr.ind with
  | number x => exact shows_number (hnumbers x List.mem_cons_self)
  | text s => exact ⟨_, shows_text (htexts s List.mem_cons_self)⟩
  | currentDate => exact ⟨_, shows_currentDate⟩
  | neg e ih =>
    have hsub : ∀ n ∈ e.nodes, n ∈ (Expr.neg e).nodes := fun n hn => List.mem_cons_of_mem _ hn
    obtain ⟨ls, he⟩ := ih (fun x hx => hfolded x (hsub _ hx)) (fun x hx => hnumbers x (hsub _ hx))
      fun s hs => htexts s (hsub _ hs)
    exact ⟨_, he.neg hfolded⟩
  | binary op l r ihl ihr =>
    have hleft : ∀ n ∈ l.nodes, n ∈ (Expr.binary op l r).nodes :=
      fun n hn => List.mem_cons_of_mem _ (List.mem_append_left _ hn)
    have hright : ∀ n ∈ r.nodes, n ∈ (Expr.binary op l r).nodes :=
      fun n hn => List.mem_cons_of_mem _ (List.mem_append_right _ hn)
    obtain ⟨ls, hl⟩ := ihl (fun x hx => hfolded x (hleft _ hx))
      (fun x hx => hnumbers x (hleft _ hx)) fun s hs => htexts s (hleft _ hs)
    obtain ⟨ms, hr⟩ := ihr (fun x hx => hfolded x (hright _ hx))
      (fun x hx => hnumbers x (hright _ hx)) fun s hs => htexts s (hright _ hs)
    exact ⟨_, .binary op hl hr⟩
  | call f args ih =>
    have hsub : ∀ e ∈ args, ∀ n ∈ e.nodes, n ∈ (Expr.call f args).nodes := fun e he n hn =>
      List.mem_cons_of_mem _ (Expr.mem_nodesOf.2 ⟨e, he, hn⟩)
    exact shows_call f fun e he => ih e he (fun x hx => hfolded x (hsub e he _ hx))
      (fun x hx => hnumbers x (hsub e he _ hx)) fun s hs => htexts s (hsub e he _ hs)

/-! ### Whole formulas -/

theorem Shows.parse_render_eq {ls : List (Lexeme α)} {e : Expr α} (h : Shows ls e) :
    Expr.parse e.render = .ok e := by
  have hnothing : Spelled ([] : List (Lexeme α)) [] := .nil fun c hc => absurd hc List.not_mem_nil
  have hspelled := h.spelled (by simp [Ends]) hnothing
  rw [List.append_nil, List.append_nil] at hspelled
  have hphrase := h.sum
  rw [← Token.map_lexeme_of_spelled hspelled] at hphrase
  exact parse_eq_ok_iff_run.2 hphrase.run_eq

/-- **What the parser accepts reads back from what is shown of it**, if its numbers are finite and
its texts hold no double quote.  Of a finite number it takes that its text is a numeral. -/
theorem parse_render {source : String} {e : Expr α} (h : Expr.parse source = .ok e)
    (hfinite : ∀ x, .number x ∈ e.nodes → Scalar.isFinite x = true)
    (hnumeral : ∀ x, .number x ∈ e.nodes → Scalar.isFinite x = true → IsNumeral x)
    (htexts : ∀ s, .text s ∈ e.nodes → '"' ∉ s.toList) : Expr.parse e.render = .ok e := by
  have hfolded := (phrase_of_run (parse_eq_ok_iff_run.1 h)).isFolded
  obtain ⟨ls, hshows⟩ :=
    exists_shows e hfolded (fun x hx => hnumeral x hx (hfinite x hx)) htexts
  exact hshows.parse_render_eq

def signedGroup : Expr α :=
  .binary .mul (.neg (.binary .sub (.number 1.5) (.number (-2.5)))) (.call .price [.text "it's"])

theorem parse_signedGroup :
    Expr.parse "-(1.5 - -(2.5)) * price(\"it's\")" = .ok (signedGroup : Expr α) := by cbv

theorem nodes_signedGroup {n : Expr α} (hn : n ∈ (signedGroup : Expr α).nodes) :
    (∀ x, n = .number x → x = 1.5 ∨ x = -2.5) ∧ ∀ s, n = .text s → s = "it's" := by
  simp only [signedGroup, Expr.nodes, Expr.nodesOf, List.mem_cons, List.mem_append,
    List.not_mem_nil, or_false] at hn
  constructor <;> grind

theorem isNumber_of_digits (c d : Char) (hc : isDigit c = true) (hd : isDigit d = true) :
    Token.IsNumber [c, '.', d] where
  chars := by simp [hc, hd]
  points := by
    have hc' : c ≠ '.' := by rintro rfl; cases hc
    have hd' : d ≠ '.' := by rintro rfl; cases hd
    simp [hc', hd']
  digit := ⟨c, List.mem_cons_self, hc⟩

/-- The negated group reads back in binary64. -/
theorem parse_render_signedGroup :
    Expr.parse "-(1.5 - -(2.5)) * price(\"it's\")" = .ok (signedGroup : Expr Float) ∧
      (∀ x, .number x ∈ (signedGroup : Expr Float).nodes → Scalar.isFinite x = true) ∧
      (∀ x, .number x ∈ (signedGroup : Expr Float).nodes → Scalar.isFinite x = true →
        IsNumeral x) ∧
      (∀ s, .text s ∈ (signedGroup : Expr Float).nodes → '"' ∉ s.toList) ∧
      Expr.parse (signedGroup : Expr Float).render = .ok (signedGroup : Expr Float) := by
  have hfinite : ∀ x, .number x ∈ (signedGroup : Expr Float).nodes → Scalar.isFinite x = true := by
    intro x hx
    rcases (nodes_signedGroup hx).1 x rfl with rfl | rfl <;> decide +kernel
  have hnumeral : ∀ x, .number x ∈ (signedGroup : Expr Float).nodes →
      Scalar.isFinite x = true → IsNumeral x := by
    intro x hx _
    rcases (nodes_signedGroup hx).1 x rfl with rfl | rfl
    · exact ⟨['1', '.', '5'], isNumber_of_digits '1' '5' rfl rfl,
        .inl ⟨by decide +kernel, by decide +kernel⟩⟩
    · exact ⟨['2', '.', '5'], isNumber_of_digits '2' '5' rfl rfl,
        .inr ⟨by decide +kernel, by decide +kernel⟩⟩
  have htexts : ∀ s, .text s ∈ (signedGroup : Expr Float).nodes → '"' ∉ s.toList := by
    intro s hs
    rw [(nodes_signedGroup hs).2 s rfl]
    decide
  exact ⟨parse_signedGroup, hfinite, hnumeral, htexts,
    parse_render parse_signedGroup hfinite hnumeral htexts⟩

end Parser

end FactorPortfolio
