import FactorPortfolio.Proofs.Calendar.Text
import FactorPortfolio.Proofs.Formula.Ago
import FactorPortfolio.Proofs.Formula.Rendering
import FactorPortfolio.Proofs.Scalar.Whole

/-!
# Dates that travel as text

A formula has no dates but texts: `currentDate` and the functions that move a date write one, and
whatever takes a date reads it back.  What is written reads back (`Date.parse_text`), so an
expression that comes to the text of a date stands for that date (`ComesTo`) wherever it is put:

* `eval_addDate`: moved by whole numbers it comes to the date that the move leads to;
* `eval_price`, `readsPrice_of_comesTo`: its price is the price on that date, and nothing else is
  asked for.

The whole numbers are written into the formula (`IsWholeLiteral`).  Up to `2 ^ 53` binary64 has them
all (`exists_readAs`), so a date is moved by what is written: `dates_survive_as_text`.
-/

namespace FactorPortfolio

open Text Decimal

namespace Expr

open Reading

variable {α : Type} [Scalar α] {symbol : Symbol} {today d d' : Date} {e : Expr α}

/-! ### Expressions that stand for a date -/

/-- The expression comes to the date, and asks for nothing. -/
def ComesTo (symbol : Symbol) (today : Date) (e : Expr α) (d : Date) : Prop :=
  eval symbol today e = done (.text d.text)

theorem comesTo_currentDate : ComesTo symbol today (.currentDate : Expr α) today := by
  rw [ComesTo, eval]

theorem argument_date_text (f : Function) (index : Nat) (d : Date) :
    (argument f index .date (.text d.text) : Reading α Argument) = done (.date d) := by
  rw [argument, Date.parse_text]
  rfl

theorem argument_integer {x : α} {n : Int} (f : Function) (index : Nat)
    (h : Scalar.whole? x = some n) :
    argument f index .integer (.number x) = done (.integer (clampInt64 n)) := by
  rw [argument]
  simp only [h]

/-- **A date is moved** by the whole numbers that the arguments come to. -/
theorem eval_addDate {x₁ x₂ x₃ : α} {y m n : Int} (he : ComesTo symbol today e d)
    (hy : Scalar.whole? x₁ = some y) (hm : Scalar.whole? x₂ = some m)
    (hn : Scalar.whole? x₃ = some n) :
    eval symbol today (.call .addDate [e, .number x₁, .number x₂, .number x₃]) =
      (dateOf (d.shift (clampInt64 y) (clampInt64 m) (clampInt64 n))).bind
        fun d' => done (.text d'.text) := by
  rw [ComesTo] at he
  rw [eval, if_pos (by rfl)]
  simp only [evalArgs, Function.params, he, eval, bind_eq, Reading.bind, argument_date_text,
    argument_integer _ _ hy, argument_integer _ _ hm, argument_integer _ _ hn]
  rfl

theorem comesTo_addDate {x₁ x₂ x₃ : α} {y m n : Int} (he : ComesTo symbol today e d)
    (hy : Scalar.whole? x₁ = some y) (hm : Scalar.whole? x₂ = some m)
    (hn : Scalar.whole? x₃ = some n)
    (hshift : d.shift (clampInt64 y) (clampInt64 m) (clampInt64 n) = .ok d') :
    ComesTo symbol today (.call .addDate [e, .number x₁, .number x₂, .number x₃]) d' := by
  rw [ComesTo, eval_addDate he hy hm hn, hshift]
  rfl

theorem eval_price (he : ComesTo symbol today e d) :
    eval symbol today (.call .price [e]) = .price symbol d fun x => done (.number x) := by
  rw [ComesTo] at he
  rw [eval_call_of_params rfl, he]
  simp only [Reading.bind, argument_date_text]
  rfl

end Expr

namespace Formula

variable {α : Type} [Scalar α] {symbol : Symbol} {today d : Date}

/-- For a symbol on the day `today` the formula asks for the price on the day `d` and for nothing
else, and its value is this price, which has to be finite. -/
def ReadsPrice (f : Formula α) (symbol : Symbol) (today d : Date) : Prop :=
  ∀ source : MetricSource α, (f.evaluate symbol today).asked source = [.price symbol d] ∧
    (f.evaluate symbol today).run source = source.price symbol d >>= fun x =>
      if Scalar.isFinite x then .ok x else .error (.nonFinite x)

theorem readsPrice_of_comesTo {f : Formula α} {e : Expr α} (htree : f.tree = .call .price [e])
    (he : e.ComesTo symbol today d) : f.ReadsPrice symbol today d := by
  intro source
  constructor
  · rw [asked_evaluate, htree, Expr.eval_price he, Reading.asked]
    cases source.price symbol d <;> rfl
  · have heval : f.evaluate symbol today = .price symbol d fun x =>
        if Scalar.isFinite x then .done x else .failed (.nonFinite x) := by
      rw [evaluate, evaluateUnchecked, htree, Expr.eval_price he]
      rfl
    rw [heval, Reading.run]
    cases source.price symbol d with
    | error e => rfl
    | ok x =>
      show Reading.run source (if Scalar.isFinite x then _ else _) = ite _ _ _
      split <;> rfl

end Formula

namespace Parser

open Token (Spelled)

/-! ### Whole numbers in a formula -/

/-- The characters write the whole number: a numeral with minus signs in front.  If it has a point
there are zeros behind it, so that all its digits write the number times a power of ten. -/
inductive WritesWhole : List Char → Int → Prop
  | numeral {w : List Char} {n : Nat} (h : Token.IsNumber w)
      (hn : ofDigits (w.filter isDigit) = n * 10 ^ (w.dropWhile (· != '.')).tail.length) :
      WritesWhole w n
  | minus {cs : List Char} {n : Int} (h : WritesWhole cs n) : WritesWhole ('-' :: cs) (-n)

/-- The text writes a whole number, in the range where binary64 has every whole number. -/
structure IsWholeLiteral (s : String) (n : Int) : Prop where
  writes : WritesWhole s.toList n
  abs_le : |n| ≤ 2 ^ 53

/-- The characters spell the lexemes wherever neither a number nor a word goes on behind them, and
these are a phrase for the number. -/
structure ReadAs {α : Type} [Scalar α] (cs : List Char) (ls : List (Lexeme α)) (x : α) : Prop where
  phrase : Phrase .unary ls (.number x)
  spelled : ∀ {ms : List (Lexeme α)} {rest : List Char}, Ends rest → Spelled ms rest →
    Spelled (ls ++ ms) (cs ++ rest)

/-- **A whole number is read as it is written.** -/
theorem exists_readAs {cs : List Char} {n : Int} (h : WritesWhole cs n) (hn : |n| ≤ 2 ^ 53) :
    ∃ (ls : List (Lexeme Float)) (x : Float), ReadAs cs ls x ∧
      Binary64.value? x = some (n : ℚ) := by
  induction h with
  | @numeral w n h hdigits =>
    have hvalue := Binary64.value?_ofScientific (show n ≤ 2 ^ 53 by simpa using hn)
      (w.dropWhile (· != '.')).tail.length
    rw [← hdigits] at hvalue
    refine ⟨[.number (Token.numberOf w)], Token.numberOf w, ⟨.ofPrimary (.number _), ?_⟩, ?_⟩
    · exact fun hrest hms => spelled_number h hrest hms
    · exact hvalue.trans (by rw [Int.cast_natCast])
  | @minus cs n h ih =>
    rw [abs_neg] at hn
    obtain ⟨ls, x, hread, hvalue⟩ := ih hn
    refine ⟨.mark '-' :: ls, -x, ⟨.minus hread.phrase, ?_⟩, ?_⟩
    · exact fun hrest hms => spelled_mark (by decide) (hread.spelled hrest hms)
    · rw [Int.cast_neg]
      exact Binary64.value?_neg hvalue

/-! ### A date that is moved -/

def shiftedPrice (years months days : String) : String :=
  "price(addDate(currentDate, " ++ years ++ ", " ++ months ++ ", " ++ days ++ "))"

theorem toList_shiftedPrice (a b c : String) : (shiftedPrice a b c).toList =
    Function.price.name.toList ++ '(' :: (Function.addDate.name.toList ++ '(' ::
      (Expr.currentDateName.toList ++ ',' :: ' ' :: (a.toList ++ ',' :: ' ' ::
        (b.toList ++ ',' :: ' ' :: (c.toList ++ [')', ')']))))) := by
  have hstart : "price(addDate(currentDate, ".toList = Function.price.name.toList ++ '(' ::
      (Function.addDate.name.toList ++ '(' :: (Expr.currentDateName.toList ++ [',', ' '])) := by
    decide +kernel
  have hgap : ", ".toList = [',', ' '] := by decide +kernel
  have hend : "))".toList = [')', ')'] := by decide +kernel
  have hjoin : ∀ {s gap t : String} {w g u : List Char}, s.toList = w → gap.toList = g →
      t.toList = u → (s ++ a ++ gap ++ b ++ gap ++ c ++ t).toList =
        w ++ (a.toList ++ (g ++ (b.toList ++ (g ++ (c.toList ++ u))))) := by
    rintro s gap t _ _ _ rfl rfl rfl
    simp only [String.toList_append, List.append_assoc]
  refine (hjoin hstart hgap hend).trans ?_
  simp only [List.append_assoc, List.cons_append, List.nil_append]

section

variable {α : Type} [Scalar α] {a b c : String} {ls₁ ls₂ ls₃ : List (Lexeme α)} {x₁ x₂ x₃ : α}
  (ha : ReadAs a.toList ls₁ x₁) (hb : ReadAs b.toList ls₂ x₂) (hc : ReadAs c.toList ls₃ x₃)

/-- The lexemes of the moved date's price, around those of the numbers. -/
def shiftedLexemes (ls₁ ls₂ ls₃ : List (Lexeme α)) : List (Lexeme α) :=
  .word Function.price.name :: .mark '(' :: .word Function.addDate.name :: .mark '(' ::
    .word Expr.currentDateName :: .mark ',' ::
      (ls₁ ++ .mark ',' :: (ls₂ ++ .mark ',' :: (ls₃ ++ [.mark ')', .mark ')'])))

include ha hb hc

theorem phrase_shiftedLexemes : Phrase .sum (shiftedLexemes ls₁ ls₂ ls₃)
    (.call .price [.call .addDate [.currentDate, .number x₁, .number x₂, .number x₃]]) := by
  have hsum : ∀ {ls : List (Lexeme α)} {x : α}, Phrase .unary ls (.number x) →
      Phrase .sum ls (.number x) := fun h => .ofProduct (.ofUnary h)
  have hmove := @Phrase.call α _ .addDate [([.word Expr.currentDateName], .currentDate),
    (ls₁, .number x₁), (ls₂, .number x₂), (ls₃, .number x₃)] (by
      simpa using ⟨shows_currentDate.sum, hsum ha.phrase, hsum hb.phrase, hsum hc.phrase⟩)
  have hprice := @Phrase.call α _ .price [(_, _)] (by
    simpa only [List.forall_mem_singleton] using Phrase.ofProduct (.ofUnary (.ofPrimary hmove)))
  simpa [shiftedLexemes] using Phrase.ofProduct (.ofUnary (.ofPrimary hprice))

theorem spelled_shiftedLexemes :
    Spelled (shiftedLexemes ls₁ ls₂ ls₃) (shiftedPrice a b c).toList := by
  have hcomma : ∀ {ls : List (Lexeme α)} {cs : List Char}, Spelled ls cs →
      Spelled (.mark ',' :: ls) (',' :: ' ' :: cs) := fun h =>
    spelled_mark (by decide) (spelled_blank h)
  have hclose : Spelled ([.mark ')', .mark ')'] : List (Lexeme α)) [')', ')'] :=
    spelled_mark (by decide) (spelled_mark (by decide) (.nil (by simp)))
  -- from the last bracket to the first word
  have hdays := hcomma (hc.spelled (ends_of_mark (by decide) _) hclose)
  have hmonths := hcomma (hb.spelled (ends_of_mark (by decide) _) hdays)
  have hyears := hcomma (ha.spelled (ends_of_mark (by decide) _) hmonths)
  have hdate := shows_currentDate.spelled (ends_of_mark (by decide) _) hyears
  have hmoved := spelled_name .addDate (ends_of_mark (by decide) _)
    (spelled_mark (c := '(') (by decide) hdate)
  have hprice := spelled_name .price (ends_of_mark (by decide) _)
    (spelled_mark (c := '(') (by decide) hmoved)
  rw [Expr.render] at hprice
  rw [toList_shiftedPrice]
  exact hprice

theorem parse_shiftedPrice : Expr.parse (shiftedPrice a b c) =
    .ok (.call .price [.call .addDate [.currentDate, .number x₁, .number x₂, .number x₃]]) := by
  rw [parse_eq_ok_iff_run]
  refine Phrase.run_eq ?_
  rw [Token.map_lexeme_of_spelled (spelled_shiftedLexemes ha hb hc)]
  exact phrase_shiftedLexemes ha hb hc

end

theorem clampInt64_eq_self {n : Int} (h : |n| ≤ 2 ^ 53) : clampInt64 n = n := by
  obtain ⟨hlow, hhigh⟩ := abs_le.1 h
  rw [clampInt64]
  omega

/-- **Dates survive as text.**  The date of every valid year, month and day from the year -262143 to
the year 262142 is written as a text that reads back as the date.  So the price on the current date
is read on the date that a formula is evaluated for, and the price on a date that is moved by whole
numbers on the date that the move leads to. -/
theorem dates_survive_as_text :
    (∀ c : Civil, c.isValid = true → -262143 ≤ c.year → c.year ≤ 262142 →
      ∃ d : Date, d.civil = c) ∧
    (∀ d : Date, Date.parse d.text = .ok d) ∧
    (∃ f : Formula Float, Formula.parse "price(currentDate)" = .ok f ∧
      ∀ symbol d, f.ReadsPrice symbol d d) ∧
    ∀ (a b c : String) (y m n : Int), IsWholeLiteral a y → IsWholeLiteral b m →
      IsWholeLiteral c n → ∃ f : Formula Float, Formula.parse (shiftedPrice a b c) = .ok f ∧
        ∀ symbol d d', d.shift y m n = .ok d' → f.ReadsPrice symbol d d' := by
  refine ⟨fun c hc hlow hhigh => ?_, Date.parse_text, ?_, fun a b c y m n ha hb hc => ?_⟩
  · obtain ⟨d, hd⟩ := (Civil.exists_date?_iff hc).2 ⟨hlow, hhigh⟩
    exact ⟨d, Civil.date?_eq_some_iff_civil_eq.1 hd⟩
  · have hparse : Expr.parse "price(currentDate)" =
        .ok (.call .price [(.currentDate : Expr Float)]) := by cbv
    refine ⟨_, by rw [Formula.parse, hparse]; rfl, fun symbol d => ?_⟩
    exact Formula.readsPrice_of_comesTo rfl Expr.comesTo_currentDate
  · obtain ⟨ls₁, x₁, hx₁, hy⟩ := exists_readAs ha.writes ha.abs_le
    obtain ⟨ls₂, x₂, hx₂, hm⟩ := exists_readAs hb.writes hb.abs_le
    obtain ⟨ls₃, x₃, hx₃, hn⟩ := exists_readAs hc.writes hc.abs_le
    have hparse := parse_shiftedPrice hx₁ hx₂ hx₃
    refine ⟨_, by rw [Formula.parse, hparse]; rfl, fun symbol d d' hshift => ?_⟩
    refine Formula.readsPrice_of_comesTo rfl (Expr.comesTo_addDate Expr.comesTo_currentDate
      (Binary64.whole?_eq_some_iff.2 hy) (Binary64.whole?_eq_some_iff.2 hm)
      (Binary64.whole?_eq_some_iff.2 hn) ?_)
    rwa [clampInt64_eq_self ha.abs_le, clampInt64_eq_self hb.abs_le, clampInt64_eq_self hc.abs_le]

/-- From the last day of the calendar ten months back, to the end of a February, and three days. -/
theorem dates_survive_as_text_latest :
    IsWholeLiteral "-1" (-1) ∧ IsWholeLiteral "2" 2 ∧ IsWholeLiteral "-3.0" (-3) ∧
      ∃ d : Date, Date.latest.text = "+262142-12-31" ∧ d.text = "+262142-02-25" ∧
        Date.latest.shift (-1) 2 (-3) = .ok d ∧
        ∃ f : Formula Float, Formula.parse (shiftedPrice "-1" "2" "-3.0") = .ok f ∧
          f.ReadsPrice "AAPL" Date.latest d := by
  have hdigit : ∀ c : Char, isDigit c = true → Token.IsNumber [c] := fun c hc =>
    Token.isNumber_whole (by simpa using hc) (List.cons_ne_nil _ _)
  have hone : IsWholeLiteral "-1" (-1) :=
    ⟨.minus (.numeral (n := 1) (hdigit '1' rfl) (by decide)), by decide⟩
  have htwo : IsWholeLiteral "2" 2 := ⟨.numeral (n := 2) (hdigit '2' rfl) (by decide), by decide⟩
  have hthree : IsWholeLiteral "-3.0" (-3) :=
    ⟨.minus (.numeral (n := 3) (isNumber_of_digits '3' '0' rfl rfl) (by decide)), by decide⟩
  have hshift : Date.latest.shift (-1) 2 (-3) = .ok ⟨95745395, by decide⟩ :=
    Date.shift_eq_ok_iff_shift?.2 (by decide +kernel)
  obtain ⟨f, hparse, hreads⟩ := dates_survive_as_text.2.2.2 "-1" "2" "-3.0" _ _ _ hone htwo hthree
  exact ⟨hone, htwo, hthree, _, by decide +kernel, by decide +kernel, hshift, f, hparse,
    hreads _ _ _ hshift⟩

end Parser

end FactorPortfolio
