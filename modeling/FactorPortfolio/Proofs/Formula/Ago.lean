import FactorPortfolio.Proofs.Calendar.TextOrder
import FactorPortfolio.Proofs.Except
import FactorPortfolio.Proofs.Formula.Bounds
import FactorPortfolio.Proofs.Formula.DryRun
import FactorPortfolio.Scalar.Binary64
import Mathlib.Tactic.Common

/-!
# Dates that a formula moves to

A date is moved by years, months and days at once (`Date.shift?_eq_some_iff`), and one fault stands
for all moves that lead out of 64 bits or out of the calendar.  A function that goes back from today
takes such a move for each unit; it reads a whole number of units (`run_call_eq_ok_iff`) and refuses
to look ahead (`run_ago_eq_ok_iff`).  So it comes to no date after today, and to no later one for
more units, although days are cut to the lengths of months: `moves_of_dates`.
-/

namespace FactorPortfolio

namespace Date

theorem eq_of_shift_eq_error {d : Date} {years months days : Int} {e : DateFault}
    (h : d.shift years months days = .error e) : e = .shift d years months days := by
  rw [shift] at h
  split at h
  · cases h
  · exact (Except.error.inj h).symm

end Date

/-- The years, months and days that a function goes back from today for each unit. -/
inductive Function.GoesBackBy : Function → Int → Int → Int → Prop
  | days : GoesBackBy .nDaysAgo 0 0 1
  | months : GoesBackBy .nMonthsAgo 0 1 0
  | years : GoesBackBy .nYearsAgo 1 0 0

namespace Expr

open Reading

variable {α : Type} [Scalar α] {source : MetricSource α} {symbol : Symbol} {today : Date}
  {f : Function} {years months days n : Int} {arg : Expr α} {v : Value α}

omit [Scalar α] in
theorem run_ago_eq_ok_iff :
    (ago f today n years months days : Reading α (Value α)).run source = .ok v ↔ 0 ≤ n ∧
      ∃ d, today.shift (-(n * years)) (-(n * months)) (-(n * days)) = .ok d ∧
        v = .text d.text := by
  rw [ago]
  split
  · rename_i hn
    exact iff_of_false nofun fun h => absurd h.1 (Int.not_le.2 hn)
  · rename_i hn
    rw [and_iff_right (Int.not_lt.1 hn)]
    cases today.shift (-(n * years)) (-(n * months)) (-(n * days)) with
    | ok d =>
      constructor
      · rintro ⟨⟩
        exact ⟨d, rfl, rfl⟩
      · rintro ⟨_, ⟨⟩, rfl⟩
        rfl
    | error e =>
      refine iff_of_false (by rintro ⟨⟩) ?_
      rintro ⟨_, ⟨⟩, _⟩

theorem eval_call_of_params {kind : ParamKind} (h : f.params = [kind]) :
    eval symbol today (.call f [arg]) = (eval symbol today arg).bind fun w =>
      (argument f 0 kind w).bind fun a => applyFunction symbol today f [a] := by
  rw [eval, if_pos (by rw [Function.arity, h]; rfl), h]
  simp only [evalArgs, bind_eq, Reading.bind_assoc]
  rfl

theorem run_argument_integer_eq_ok_iff {index : Nat} {a : Argument} :
    (argument f index .integer v : Reading α Argument).run source = .ok a ↔
      ∃ x k, v = .number x ∧ Scalar.whole? x = some k ∧ a = .integer (clampInt64 k) := by
  cases v with
  | text s =>
    refine iff_of_false (by rintro ⟨⟩) ?_
    rintro ⟨_, _, ⟨⟩, _⟩
  | number x =>
    rw [argument]
    cases hx : Scalar.whole? x with
    | none =>
      refine iff_of_false (by rintro ⟨⟩) ?_
      rintro ⟨_, _, ⟨⟩, hk, _⟩
      rw [hx] at hk
      cases hk
    | some k =>
      constructor
      · rintro ⟨⟩
        exact ⟨x, k, rfl, hx, rfl⟩
      · rintro ⟨_, k', ⟨⟩, hk, rfl⟩
        rw [hx] at hk
        cases hk
        rfl

/-- Functions that go back take a whole number of units, cut to 64 bits. -/
theorem run_call_eq_ok_iff (hf : f.GoesBackBy years months days) :
    (eval symbol today (.call f [arg])).run source = .ok v ↔
      ∃ x k, (eval symbol today arg).run source = .ok (.number x) ∧ Scalar.whole? x = some k ∧
        (ago f today (clampInt64 k) years months days : Reading α (Value α)).run source =
          .ok v := by
  have hparams : f.params = [.integer] := by cases hf <;> rfl
  have happly : ∀ n, (applyFunction symbol today f [.integer n] : Reading α (Value α)) =
      ago f today n years months days := by
    intro n
    cases hf <;> rfl
  rw [eval_call_of_params hparams, run_bind]
  refine Iff.trans Except.bind_eq_ok_iff ?_
  simp only [run_bind]
  constructor
  · rintro ⟨w, hw, h⟩
    obtain ⟨a, ha, h⟩ := Except.bind_eq_ok_iff.1 h
    obtain ⟨x, k, rfl, hk, rfl⟩ := run_argument_integer_eq_ok_iff.1 ha
    exact ⟨x, k, hw, hk, happly _ ▸ h⟩
  · rintro ⟨x, k, hx, hk, h⟩
    refine ⟨.number x, hx, Except.bind_eq_ok_iff.2 ⟨_, ?_, (happly _).symm ▸ h⟩⟩
    exact run_argument_integer_eq_ok_iff.2 ⟨x, k, rfl, hk, rfl⟩

/-- A call of `f` whose argument comes to the number `n` comes to the date `d`. -/
def TakesBack (source : MetricSource α) (symbol : Symbol) (today : Date) (f : Function) (n : Int)
    (d : Date) : Prop :=
  ∃ arg x k, (eval symbol today arg).run source = .ok (.number x) ∧ Scalar.whole? x = some k ∧
    clampInt64 k = n ∧ (eval symbol today (.call f [arg])).run source = .ok (.text d.text)

theorem TakesBack.shift (hf : f.GoesBackBy years months days) {d : Date}
    (h : TakesBack source symbol today f n d) : 0 ≤ n ∧
      today.shift (-(n * years)) (-(n * months)) (-(n * days)) = .ok d := by
  obtain ⟨arg, x, k, hx, hk, rfl, hcall⟩ := h
  obtain ⟨x', k', hx', hk', hago⟩ := (run_call_eq_ok_iff hf).1 hcall
  obtain rfl : x = x' := by
    rw [hx] at hx'
    cases hx'
    rfl
  obtain rfl := Option.some.inj (hk.symm.trans hk')
  obtain ⟨hn, d', hshift, htext⟩ := run_ago_eq_ok_iff.1 hago
  rw [Date.text_injective (Value.text.inj htext)]
  exact ⟨hn, hshift⟩

theorem takesBack_of_shift (hf : f.GoesBackBy years months days) {x : α} {k : Int}
    (hx : Scalar.whole? x = some k) (hk : clampInt64 k = n) (hn : 0 ≤ n) {d : Date}
    (h : today.shift (-(n * years)) (-(n * months)) (-(n * days)) = .ok d) :
    TakesBack source symbol today f n d := by
  subst hk
  refine ⟨.number x, x, k, rfl, hx, rfl, (run_call_eq_ok_iff hf).2 ⟨x, k, rfl, hx, ?_⟩⟩
  exact run_ago_eq_ok_iff.2 ⟨hn, d, h, rfl⟩

/-- **How dates move.**  A move by years, months and days leads somewhere if and only if no step of
`12 * years + months` leaves 64 bits, the calendar has the date so many months later, its day cut to
the length of its month, and it has the date so many days after that one, which is where the move
leads.  Whether it has the first of these dates is up to the year.  All other moves are reported, by
one fault.

A function that goes back comes to a date or fails.  The date is that of a move back by so many
units, it is not later than today, and for more units it is no later one. -/
theorem moves_of_dates (hf : f.GoesBackBy years months days) (source : MetricSource α)
    (symbol : Symbol) (today : Date) :
    (∀ (d : Date) (y m n : Int) (d' : Date), d.shift y m n = .ok d' ↔
      isInt64 (12 * y) = true ∧ isInt64 (12 * y + m) = true ∧
        ∃ e, d.MonthsAfter (12 * y + m) e ∧ d'.day = e.day + n) ∧
    (∀ (d : Date) (n : Int), (∃ e, d.MonthsAfter n e) ↔
      -262143 ≤ (12 * d.civil.year + d.civil.month - 1 + n) / 12 ∧
        (12 * d.civil.year + d.civil.month - 1 + n) / 12 ≤ 262142) ∧
    (∀ (d : Date) (y m n : Int) (e : DateFault), d.shift y m n = .error e →
      e = .shift d y m n) ∧
    (∀ arg v, (eval symbol today (.call f [arg])).run source = .ok v →
      ∃ n d, TakesBack source symbol today f n d ∧ v = .text d.text) ∧
    (∀ n d, TakesBack source symbol today f n d → 0 ≤ n ∧
      today.shift (-(n * years)) (-(n * months)) (-(n * days)) = .ok d ∧ d ≤ today) ∧
    ∀ n n' d d', TakesBack source symbol today f n d → TakesBack source symbol today f n' d' →
      n ≤ n' → d' ≤ d := by
  obtain ⟨hy, hm, hd⟩ : 0 ≤ years ∧ 0 ≤ months ∧ 0 ≤ days := by cases hf <;> decide
  have hback : ∀ {a b k : Int}, 0 ≤ k → a ≤ b → -(b * k) ≤ -(a * k) := fun hk hab =>
    Int.neg_le_neg (Int.mul_le_mul_of_nonneg_right hab hk)
  have hnone : ∀ {a k : Int}, 0 ≤ k → 0 ≤ a → -(a * k) ≤ 0 := fun hk ha =>
    Int.neg_nonpos_of_nonneg (Int.mul_nonneg ha hk)
  refine ⟨fun d y m n d' => Date.shift_eq_ok_iff_shift?.trans Date.shift?_eq_some_iff,
    fun d n => Date.exists_monthsAfter_iff, fun d y m n e => Date.eq_of_shift_eq_error,
    fun arg v hv => ?_, fun n d h => ?_, ?_⟩
  · obtain ⟨x, k, hx, hk, hago⟩ := (run_call_eq_ok_iff hf).1 hv
    obtain ⟨_, d, _, rfl⟩ := run_ago_eq_ok_iff.1 hago
    exact ⟨_, d, ⟨arg, x, k, hx, hk, rfl, hv⟩, rfl⟩
  · obtain ⟨hn, hshift⟩ := h.shift hf
    exact ⟨hn, hshift, Date.le_of_shift? (hnone hy hn) (hnone hm hn) (hnone hd hn)
      (Date.shift_eq_ok_iff_shift?.1 hshift)⟩
  · intro n n' d d' h h' hle
    obtain ⟨_, hshift⟩ := h.shift hf
    obtain ⟨_, hshift'⟩ := h'.shift hf
    exact Date.shift?_mono (hback hy hle) (hback hm hle) (hback hd hle)
      (Date.shift_eq_ok_iff_shift?.1 hshift') (Date.shift_eq_ok_iff_shift?.1 hshift)

def endOfMarch : Date := ⟨739281, by decide⟩

/-- A month before the end of March the day is cut to that of the leap day; two months before it is
not cut, and the date is still the earlier one. -/
theorem moves_of_dates_endOfMarch : Function.GoesBackBy .nMonthsAgo 0 1 0 ∧
    ∃ d d' : Date, endOfMarch.text = "2024-03-31" ∧ d.text = "2024-02-29" ∧
      d'.text = "2024-01-31" ∧
      TakesBack (standInSource : MetricSource Float) "AAPL" endOfMarch .nMonthsAgo 1 d ∧
      TakesBack (standInSource : MetricSource Float) "AAPL" endOfMarch .nMonthsAgo 2 d' ∧
      d' ≤ d := by
  have hd : TakesBack (standInSource : MetricSource Float) "AAPL" endOfMarch .nMonthsAgo 1
      ⟨739250, by decide⟩ :=
    takesBack_of_shift .months (show Scalar.whole? (1 : Float) = some 1 by decide +kernel) rfl
      (by decide) (Date.shift_eq_ok_iff_shift?.2 (by decide +kernel))
  have hd' : TakesBack (standInSource : MetricSource Float) "AAPL" endOfMarch .nMonthsAgo 2
      ⟨739221, by decide⟩ :=
    takesBack_of_shift .months (show Scalar.whole? (2 : Float) = some 2 by decide +kernel) rfl
      (by decide) (Date.shift_eq_ok_iff_shift?.2 (by decide +kernel))
  obtain ⟨_, _, _, _, _, hmono⟩ :=
    moves_of_dates .months (standInSource : MetricSource Float) "AAPL" endOfMarch
  exact ⟨.months, _, _, by decide +kernel, by decide +kernel, by decide +kernel, hd, hd',
    hmono 1 2 _ _ hd hd' (by decide)⟩

end Expr

end FactorPortfolio
