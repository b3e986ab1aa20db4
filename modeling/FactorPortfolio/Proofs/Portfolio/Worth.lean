import Mathlib.Tactic.Linarith
import FactorPortfolio.Backtest.Run
import FactorPortfolio.Proofs.Target.Compute
import FactorPortfolio.Proofs.Weighting.SumToOne

/-!
# What a portfolio is worth

In exact arithmetic a portfolio is worth its cash and the sum of its quantities times their prices,
provided that each of them has a price (`totalValue_eq_ok_iff`).  A target is worth what it was
computed for, but for the rounding of the parts to three places: half a thousandth for each
(`abs_worth_sub_le`).
-/

namespace FactorPortfolio

variable {α : Type} [Field α] [LinearOrder α] [FloorRing α] [InexactFunctions α]
  {prices : Table Symbol α}

namespace Portfolio

/-- The sum of the quantities times their prices; what has no price counts for nothing. -/
def worth (p : Portfolio α) (prices : Table Symbol α) : α :=
  (p.positions.entries.map fun e => e.2 * (prices.get? e.1).getD 0).sum

theorem foldlM_addWorth_eq_ok_iff {l : List (Symbol × α)} {start value : α} :
    l.foldlM (addWorth prices) start = .ok value ↔
      (∀ e ∈ l, prices.contains e.1 = true) ∧
        start + (l.map fun e => e.2 * (prices.get? e.1).getD 0).sum = value := by
  induction l generalizing start with
  | nil => simp [Except.pure_eq_ok_iff]
  | cons e l ih =>
    rw [List.foldlM_cons, Except.bind_eq_ok_iff, List.forall_mem_cons, List.map_cons,
      List.sum_cons, Table.contains, addWorth]
    cases prices.get? e.1 with
    | none => simp
    | some price =>
      simp only [Except.ok.injEq, exists_eq_left', ih, Option.isSome_some, true_and,
        Option.getD_some, add_assoc]

/-- **A portfolio is worth its cash and its quantities times their prices**, if it has a value. -/
theorem totalValue_eq_ok_iff {p : Portfolio α} {value : α} : p.totalValue prices = .ok value ↔
    (∀ e ∈ p.positions.entries, prices.contains e.1 = true) ∧ p.cash + p.worth prices = value :=
  foldlM_addWorth_eq_ok_iff

theorem holdingValue_eq_ok_iff {p : Portfolio α} {date : Date} {value : α} :
    Backtest.holdingValue p prices date = .ok value ↔
      (∀ e ∈ p.positions.entries, prices.contains e.1 = true) ∧
        p.cash + p.worth prices = value := by
  rw [Backtest.holdingValue, Except.mapError_eq_ok_iff, totalValue_eq_ok_iff]

end Portfolio

namespace Target

/-- What a price has grown to, as a multiple of what it was. -/
def growth (prices later : Table Symbol α) (symbol : Symbol) : α :=
  (later.get? symbol).getD 0 / (prices.get? symbol).getD 0

/-- At later prices the position of a symbol is worth its part of the value, rounded, times what the
price has grown to. -/
theorem sum_position?_later {value : α} {l : List (Symbol × α)}
    (h : ∀ e ∈ l, ∃ price, prices.get? e.1 = some price ∧ (0.0 : α) < price)
    (later : Table Symbol α) :
    ((l.filterMap (position? prices value)).map fun e => e.2 * (later.get? e.1).getD 0).sum =
      (l.map fun e => round3 (value * e.2) * growth prices later e.1).sum := by
  induction l with
  | nil => rfl
  | cons e l ih =>
    obtain ⟨⟨price, hprice, hpos⟩, hl⟩ := List.forall_mem_cons.1 h
    have hne : price ≠ 0 := by
      norm_num at hpos
      exact hpos.ne'
    rw [List.map_cons, List.sum_cons, ← ih hl, List.filterMap_cons, position?, hprice,
      Option.bind_some]
    split
    · rename_i hnone
      split at hnone
      · rename_i hzero
        have hround : round3 (value * e.2) = 0 := by
          have := eq_of_beq hzero
          norm_num [hne] at this
          exact this
        rw [hround, zero_mul, zero_add]
      · cases hnone
    · rename_i position hsome
      split at hsome
      · cases hsome
      · cases hsome
        rw [List.map_cons, List.sum_cons, growth, hprice, Option.getD_some, div_mul_eq_mul_div,
          mul_div_assoc]

theorem sum_position? {value : α} {l : List (Symbol × α)}
    (h : ∀ e ∈ l, ∃ price, prices.get? e.1 = some price ∧ (0.0 : α) < price) :
    ((l.filterMap (position? prices value)).map fun e => e.2 * (prices.get? e.1).getD 0).sum =
      (l.map fun e => round3 (value * e.2)).sum := by
  rw [sum_position?_later h]
  refine congrArg List.sum (List.map_congr_left fun e he => ?_)
  obtain ⟨price, hprice, hpos⟩ := h e he
  norm_num at hpos
  rw [growth, hprice, Option.getD_some, div_self hpos.ne', mul_one]

theorem Computed.totalValue_eq {date : Date} {scores : Table Symbol α} {numTickers : Nat}
    {value : α} {policy : WeightingPolicy α} {target : Target α}
    (h : Computed date scores prices numTickers value policy target) :
    target.portfolio.cash = 0 ∧
      target.portfolio.totalValue prices = .ok (target.portfolio.worth prices) := by
  have hcash : target.portfolio.cash = 0 := by
    rw [h.cash]
    norm_num
  have hpriced : ∀ e ∈ target.portfolio.positions.entries, prices.contains e.1 = true := by
    intro e he
    rw [h.positions, List.mem_filterMap] at he
    obtain ⟨e₀, he₀, hposition⟩ := he
    obtain ⟨price, hprice, _⟩ := h.priced e₀ he₀
    rw [symbol_of_position? hposition, Table.contains, hprice]
    rfl
  exact ⟨hcash, Portfolio.totalValue_eq_ok_iff.2 ⟨hpriced, by rw [hcash, zero_add]⟩⟩

variable [IsStrictOrderedRing α]

/-- **What rounding to three places gives** is the nearest multiple of a thousandth, and of two that
are as near the one farther from zero. -/
theorem round3_eq_iff {x y : α} : round3 x = y ↔
    (∃ n : ℤ, y = n / 1000) ∧ |y - x| ≤ 0.0005 ∧ (|y - x| = 0.0005 → |x| < |y|) := by
  have hpos : (0 : α) < 1000 := by norm_num
  have hround3 : round3 x = Exact.round (x * 1000) / 1000 := by
    show Exact.round (x * 1000.0) / 1000.0 = _
    norm_num
  have hscale : ∀ z : α, |z * 1000| = |z| * 1000 := by
    intro z
    rw [abs_mul, abs_of_pos hpos]
  have hdistance : |y * 1000 - x * 1000| = |y - x| * 1000 := by rw [← sub_mul, hscale]
  have hhalf : (1 / 2 : α) = 0.0005 * 1000 := by norm_num
  have hwhole : (∃ n : ℤ, y * 1000 = n) ↔ ∃ n : ℤ, y = n / 1000 :=
    exists_congr fun n => (eq_div_iff hpos.ne').symm
  have hnear : |y * 1000 - x * 1000| ≤ 1 / 2 ↔ |y - x| ≤ 0.0005 := by
    rw [hdistance, hhalf, mul_le_mul_iff_left₀ hpos]
  have htie : |y * 1000 - x * 1000| = 1 / 2 ↔ |y - x| = 0.0005 := by
    rw [hdistance, hhalf, mul_left_inj' hpos.ne']
  have haway : |x * 1000| < |y * 1000| ↔ |x| < |y| := by
    rw [hscale, hscale, mul_lt_mul_iff_left₀ hpos]
  rw [hround3, div_eq_iff hpos.ne', Exact.round_eq_iff]
  constructor
  · intro h
    exact ⟨hwhole.1 h.whole, hnear.1 h.near, fun heq => haway.1 (h.away (htie.2 heq))⟩
  · rintro ⟨hmultiple, hle, hlt⟩
    exact ⟨hwhole.2 hmultiple, hnear.2 hle, fun heq => haway.2 (hlt (htie.1 heq))⟩

theorem abs_round3_sub_le (x : α) : |round3 x - x| ≤ 0.0005 := (round3_eq_iff.1 rfl).2.1

theorem abs_sum_round3_sub_le (value : α) (l : List (Symbol × α)) :
    |(l.map fun e => round3 (value * e.2)).sum - value * (l.map Prod.snd).sum| ≤
      l.length * 0.0005 := by
  induction l with
  | nil => simp
  | cons e l ih =>
    have hround := abs_round3_sub_le (value * e.2)
    rw [List.map_cons, List.sum_cons, List.map_cons, List.sum_cons, List.length_cons]
    have heq : round3 (value * e.2) + (l.map fun e => round3 (value * e.2)).sum -
        value * (e.2 + (l.map Prod.snd).sum) = (round3 (value * e.2) - value * e.2) +
          ((l.map fun e => round3 (value * e.2)).sum - value * (l.map Prod.snd).sum) := by ring
    calc _ ≤ |round3 (value * e.2) - value * e.2| + |(l.map fun e => round3 (value * e.2)).sum -
            value * (l.map Prod.snd).sum| := by rw [heq]; exact abs_add_le _ _
      _ ≤ 0.0005 + l.length * 0.0005 := add_le_add hround ih
      _ = _ := by push_cast; ring

/-- **A target is worth what it was computed for, but for rounding.** -/
theorem Computed.abs_worth_sub_le {date : Date} {scores : Table Symbol α} {numTickers : Nat}
    {value : α} {policy : WeightingPolicy α} {target : Target α} (hpolicy : policy.Admissible)
    (h : Computed date scores prices numTickers value policy target) :
    |target.portfolio.worth prices - value| ≤ numTickers * 0.0005 := by
  have hn : numTickers ≠ 0 := by
    have := h.tickers
    rintro rfl
    cases this
  obtain ⟨hlength, hsum⟩ := Weighting.sum_weights hpolicy hn h.weights
  have hworth : target.portfolio.worth prices =
      (target.weights.entries.map fun e => round3 (value * e.2)).sum := by
    rw [Portfolio.worth, h.positions]
    exact sum_position? h.priced
  have hrounded := abs_sum_round3_sub_le value target.weights.entries
  have hone : (target.weights.entries.map Prod.snd).sum = 1 := hsum
  rwa [hone, mul_one, hlength, ← hworth] at hrounded

end Target

end FactorPortfolio
