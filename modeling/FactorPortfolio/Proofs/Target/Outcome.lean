import FactorPortfolio.Proofs.Portfolio.Worth
import FactorPortfolio.Proofs.Weighting.Headroom
import FactorPortfolio.Proofs.Weighting.Selection

/-!
# When a day has a target, and which

In exact arithmetic weights that a policy admits pass their check (`weights_eq_distribute`), so that
a target fails for four reasons only: the value, the number of symbols, the number of scores, and
the price of a selected symbol.  The first of them that holds is the one that is reported, and of
several symbols without a price the least (`Refused`, `compute_eq_error_iff`).  A target that there
is holds what the parts of its symbols buy and nothing else (`Allotted`).
-/

namespace FactorPortfolio

variable {α : Type} [Field α] [LinearOrder α] [FloorRing α] [InexactFunctions α]

/-! ### Weights pass their check -/

namespace Weighting

theorem isNumeric (scores : Table Symbol α) : IsNumeric scores := fun _ _ => rfl

variable [IsStrictOrderedRing α]

theorem nonneg_of_mem_distribute {policy : WeightingPolicy α} {selected : List (Symbol × α)}
    (hne : selected ≠ []) {x : α} (hx : x ∈ (distribute policy selected).values) : 0 ≤ x := by
  obtain ⟨e, he, rfl⟩ := List.mem_map.1 hx
  have hequal : e ∈ (equalWeights selected).entries → 0 ≤ e.2 := by
    intro he
    obtain ⟨e', _, rfl⟩ := List.mem_map.1 (Table.mem_of_mem_ofList he)
    exact (share_bounds hne).1
  rw [distribute.eq_def] at he
  split at he
  · obtain rfl := List.mem_singleton.1 (Table.mem_of_mem_ofList he)
    norm_num
  · exact hequal he
  · rw [tiltedWeights] at he
    split at he
    · exact hequal he
    · obtain ⟨e', _, rfl⟩ := List.mem_map.1 (Table.mem_of_mem_ofList he)
      rw [Exact.max_eq_max, Exact.zero_eq]
      exact le_max_right _ _

/-- **Weights of as many symbols as there are scores for are never refused.** -/
theorem weights_eq_distribute {policy : WeightingPolicy α} (hpolicy : policy.Admissible)
    {scores : Table Symbol α} {n : ℕ} (hn : n ≠ 0) (hle : n ≤ scores.size) :
    policy.weights scores n = .ok (distribute policy (top scores n)) := by
  have hlength : (top scores n).length = n := (length_top scores n).trans (min_eq_left hle)
  have hne : top scores n ≠ [] := by
    rw [← List.length_pos_iff_ne_nil, hlength]
    exact Nat.pos_of_ne_zero hn
  obtain ⟨parts, heq, hparts⟩ := exists_parts hpolicy hne
  have hperm := Table.entries_ofList_perm (hparts.symbols ▸ nodup_top scores n)
  have hsum : (distribute policy (top scores n)).values.sum = 1 := by
    rw [heq]
    exact (hperm.map Prod.snd).sum_eq.trans hparts.sum
  rw [weights_of_le policy hle, fault?_eq_none (fun x hx => nonneg_of_mem_distribute hne hx) hsum]

end Weighting

namespace Target

open Weighting

variable {date : Date} {scores prices : Table Symbol α} {n : ℕ} {value : α}
  {policy : WeightingPolicy α} {target : Target α}

/-! ### Prices -/

def Priced (prices : Table Symbol α) (s : Symbol) : Prop :=
  ∃ price, prices.get? s = some price ∧ 0 < price

theorem exists_invest {s : Symbol} (h : Priced prices s) (weight : α) (p : Portfolio α) :
    ∃ p', invest prices value p (s, weight) = .ok p' := by
  obtain ⟨price, hget, hpos⟩ := h
  have hprice : positivePrice prices s = .ok price :=
    positivePrice_eq_ok_iff.2 ⟨hget, by rwa [Exact.zero_eq]⟩
  exact ⟨_, by rw [invest, hprice]; rfl⟩

theorem invest_of_not_priced {s : Symbol} (h : ¬ Priced prices s) (weight : α) (p : Portfolio α) :
    invest prices value p (s, weight) = .error (.missingPrice s) := by
  have hprice : positivePrice prices s = .error (.missingPrice s) := by
    rw [positivePrice]
    cases hget : prices.get? s with
    | none => rfl
    | some price =>
      refine if_neg fun hpos => h ⟨price, hget, ?_⟩
      rwa [Exact.zero_eq] at hpos
  rw [invest, hprice]
  rfl

/-- **Investing stops at the least symbol without a price.** -/
theorem foldlM_invest_eq_error_iff (weights : Table Symbol α) {p : Portfolio α}
    {e : TargetError α} : weights.entries.foldlM (invest prices value) p = .error e ↔
      ∃ s ∈ weights.keys, ¬ Priced prices s ∧
        (∀ s' ∈ weights.keys, compare s' s = .lt → Priced prices s') ∧ e = .missingPrice s := by
  rw [Except.foldlM_eq_error_iff (P := fun a => Priced prices a.1)
    (g := fun a => .missingPrice a.1) (fun _ _ => Table.not_lt_of_lt) weights.ascending
    (fun a _ ha p => exists_invest ha a.2 p) fun a _ ha p => invest_of_not_priced ha a.2 p]
  simp only [Table.keys, List.mem_map, exists_exists_and_eq_and, forall_exists_index, and_imp,
    forall_apply_eq_imp_iff₂]

/-! ### Why there is no target -/

/-- The first check that fails: of the value, of the number of symbols, of the number of scores, and
of the prices of the selected symbols. -/
inductive Refused (scores prices : Table Symbol α) (n : ℕ) (value : α) : TargetError α → Prop
  | value (h : value ≤ 0.001) : Refused scores prices n value (.valueTooSmall value)
  | tickers (hvalue : 0.001 < value) (h : n < 3) :
      Refused scores prices n value (.tooFewTickers 3 n)
  | scores (hvalue : 0.001 < value) (htickers : 3 ≤ n) (h : scores.size < n) :
      Refused scores prices n value (.notEnoughScores n scores.size)
  | price (hvalue : 0.001 < value) (htickers : 3 ≤ n) {symbols : Finset Symbol}
      (hselection : Selection scores n symbols) {s : Symbol} (hs : s ∈ symbols)
      (h : ¬ Priced prices s) (hleast : ∀ s' ∈ symbols, compare s' s = .lt → Priced prices s') :
      Refused scores prices n value (.missingPrice s)

theorem compute_of_le (h : value ≤ 0.001) :
    compute date scores prices n value policy = .error (.valueTooSmall value) := by
  have hsmall : (Scalar.isNaN value || decide (value ≤ minValue)) = true := by
    rw [Exact.isNaN_eq, Bool.false_or]
    exact decide_eq_true h
  rw [compute, if_pos hsmall]

theorem compute_of_lt (h : 0.001 < value) : compute date scores prices n value policy =
    if n < 3 then .error (.tooFewTickers 3 n)
    else policy.weights scores n >>= fun weights =>
      weights.entries.foldlM (invest prices value) (.ofCash 0.0) >>= fun portfolio =>
        pure ⟨date, portfolio, weights, scores.filter fun symbol _ => weights.contains symbol⟩ := by
  have hvalue : IsEnough value := by
    rw [IsEnough, Exact.isNaN_eq, Bool.false_or, decide_eq_true_iff]
    exact h.not_ge
  exact compute_of_isEnough hvalue

variable [IsStrictOrderedRing α]

/-- With enough scores it is up to the prices of the selected symbols whether there is a target. -/
theorem compute_eq_error_iff_prices (hpolicy : policy.Admissible) (hvalue : 0.001 < value)
    (htickers : 3 ≤ n) (hscores : n ≤ scores.size) {e : TargetError α} :
    compute date scores prices n value policy = .error e ↔
      ∃ symbols, Selection scores n symbols ∧ ∃ s ∈ symbols, ¬ Priced prices s ∧
        (∀ s' ∈ symbols, compare s' s = .lt → Priced prices s') ∧ e = .missingPrice s := by
  have hweights := weights_eq_distribute hpolicy (by omega) hscores
  have hselection := selection_of_weights (isNumeric scores) hweights
  have hcompute : compute date scores prices n value policy = .error e ↔
      (distribute policy (top scores n)).entries.foldlM (invest prices value) (.ofCash 0.0) =
        .error e := by
    rw [compute_of_lt hvalue, if_neg (by omega), hweights, Except.bind_eq_error_iff]
    simp [Except.bind_eq_error_iff, pure, Except.pure]
  rw [hcompute, foldlM_invest_eq_error_iff]
  constructor
  · rintro ⟨s, hs, hnot, hleast, he⟩
    exact ⟨_, hselection, s, List.mem_toFinset.2 hs, hnot,
      fun s' hs' => hleast s' (List.mem_toFinset.1 hs'), he⟩
  · rintro ⟨symbols, hsymbols, s, hs, hnot, hleast, he⟩
    obtain rfl := hsymbols.unique (isNumeric scores) hselection
    exact ⟨s, List.mem_toFinset.1 hs, hnot, fun s' hs' => hleast s' (List.mem_toFinset.2 hs'), he⟩

/-- **A target fails at the first check that does**, and never at the weights. -/
theorem compute_eq_error_iff (hpolicy : policy.Admissible) {e : TargetError α} :
    compute date scores prices n value policy = .error e ↔ Refused scores prices n value e := by
  rcases le_or_gt value 0.001 with hvalue | hvalue
  · rw [compute_of_le hvalue]
    constructor
    · rintro ⟨⟩
      exact .value hvalue
    · rintro (_ | hlt | hlt | hlt)
      · rfl
      all_goals exact absurd hvalue hlt.not_ge
  rcases lt_or_ge n 3 with htickers | htickers
  · rw [compute_of_lt hvalue, if_pos htickers]
    constructor
    · rintro ⟨⟩
      exact .tickers hvalue htickers
    · rintro (hle | - | ⟨-, hge, -⟩ | ⟨-, hge, -⟩)
      · exact absurd hle hvalue.not_ge
      · rfl
      all_goals omega
  rcases lt_or_ge scores.size n with hscores | hscores
  · rw [compute_of_lt hvalue, if_neg (by omega), weights_of_lt policy hscores]
    constructor
    · rintro ⟨⟩
      exact .scores hvalue htickers hscores
    · rintro (hle | ⟨-, hlt⟩ | - | ⟨-, -, hselection, -⟩)
      · exact absurd hle hvalue.not_ge
      · omega
      · rfl
      · exact absurd hselection.le_size hscores.not_ge
  · rw [compute_eq_error_iff_prices hpolicy hvalue htickers hscores]
    constructor
    · rintro ⟨symbols, hselection, s, hs, hnot, hleast, rfl⟩
      exact .price hvalue htickers hselection hs hnot hleast
    · rintro (hle | ⟨-, hlt⟩ | ⟨-, -, hlt⟩ | ⟨-, -, hselection, hs, hnot, hleast⟩)
      · exact absurd hle hvalue.not_ge
      · omega
      · omega
      · exact ⟨_, hselection, _, hs, hnot, hleast, rfl⟩

/-! ### What a target holds -/

/-- The target of a day: the parts of a value that are invested in the selected symbols. -/
structure Allotted (date : Date) (scores prices : Table Symbol α) (n : ℕ) (value : α)
    (policy : WeightingPolicy α) (target : Target α) : Prop where
  date_eq : target.date = date
  weights : policy.weights scores n = .ok target.weights
  selection : Selection scores n target.weights.keys.toFinset
  cash : target.portfolio.cash = 0
  /-- A selected symbol is held for its part of the value, rounded, unless that is nothing. -/
  position : ∀ s weight, target.weights.get? s = some weight → ∃ price,
    prices.get? s = some price ∧ 0 < price ∧
    target.portfolio.quantity s * price = round3 (value * weight) ∧
    (target.portfolio.positions.contains s = true ↔ round3 (value * weight) ≠ 0)
  unselected : ∀ s, target.weights.contains s = false →
    target.portfolio.positions.contains s = false
  scores : ∀ s, target.scores.get? s = if target.weights.contains s then scores.get? s else none
  worth : ∃ worth, target.portfolio.totalValue prices = .ok worth ∧ |worth - value| ≤ n * 0.0005

theorem allotted_of_compute (hpolicy : policy.Admissible)
    (h : compute date scores prices n value policy = .ok target) :
    Allotted date scores prices n value policy target := by
  have hcomputed := computed_of_compute h
  constructor
  case date_eq => exact hcomputed.date_eq
  case weights => exact hcomputed.weights
  case selection => exact selection_of_weights (isNumeric scores) hcomputed.weights
  case cash => exact hcomputed.totalValue_eq.1
  case position =>
    intro s weight hweight
    obtain ⟨price, hprice, hpos⟩ := hcomputed.priced _ (Table.get?_eq_some_iff.1 hweight)
    rw [Exact.zero_eq] at hpos
    have hget := hcomputed.get?_positions hweight hprice
    refine ⟨price, hprice, hpos, ?_, ?_⟩
    · rw [Portfolio.quantity, hget]
      split
      · rename_i hzero
        rw [beq_iff_eq, Exact.zero_eq, div_eq_zero_iff, or_iff_left hpos.ne'] at hzero
        rw [hzero, Option.getD_none, Exact.zero_eq, zero_mul]
      · rw [Option.getD_some, div_mul_cancel₀ _ hpos.ne']
    · rw [Table.contains, hget, Exact.zero_eq]
      simp [hpos.ne']
  case unselected =>
    intro s hs
    rw [Bool.eq_false_iff, Ne, Table.contains_iff_exists] at hs ⊢
    rintro ⟨quantity, hmem⟩
    rw [hcomputed.positions, List.mem_filterMap] at hmem
    obtain ⟨e, he, hposition⟩ := hmem
    obtain rfl : s = e.1 := symbol_of_position? hposition
    exact hs ⟨e.2, he⟩
  case scores =>
    intro s
    rw [hcomputed.scores_eq, Table.get?_filter]
    cases target.weights.contains s <;> cases scores.get? s <;> rfl
  case worth =>
    exact ⟨_, hcomputed.totalValue_eq.2, hcomputed.abs_worth_sub_le hpolicy⟩

/-- **The target of a day.**  There is one if the value and the number of symbols are large enough,
there are enough scores, and the selected symbols have prices; then it holds the selected symbols
for their parts of the value.  Otherwise the first of these that fails is the reason why not. -/
theorem compute_outcome (hpolicy : policy.Admissible) (date : Date)
    (scores prices : Table Symbol α) (n : ℕ) (value : α) :
    ((∃ target, compute date scores prices n value policy = .ok target) ↔
      0.001 < value ∧ 3 ≤ n ∧ n ≤ scores.size ∧
        ∀ symbols, Selection scores n symbols → ∀ s ∈ symbols, Priced prices s) ∧
    (∀ target, compute date scores prices n value policy = .ok target →
      Allotted date scores prices n value policy target) ∧
    ∀ e, compute date scores prices n value policy = .error e ↔
      Refused scores prices n value e := by
  refine ⟨⟨?_, ?_⟩, fun target h => allotted_of_compute hpolicy h,
    fun e => compute_eq_error_iff hpolicy⟩
  · rintro ⟨target, h⟩
    have hcomputed := computed_of_compute h
    have hselection := (allotted_of_compute hpolicy h).selection
    refine ⟨not_le.1 hcomputed.worth, hcomputed.tickers, hselection.le_size, ?_⟩
    intro symbols hsymbols s hs
    rw [hsymbols.unique (isNumeric scores) hselection, List.mem_toFinset] at hs
    obtain ⟨e, he, rfl⟩ := List.mem_map.1 hs
    obtain ⟨price, hprice, hpos⟩ := hcomputed.priced e he
    rw [Exact.zero_eq] at hpos
    exact ⟨price, hprice, hpos⟩
  · rintro ⟨hvalue, htickers, hscores, hpriced⟩
    cases h : compute date scores prices n value policy with
    | ok target => exact ⟨target, rfl⟩
    | error e =>
      obtain ⟨symbols, hselection, s, hs, hnot, -⟩ :=
        (compute_eq_error_iff_prices hpolicy hvalue htickers hscores).1 h
      exact absurd (hpriced symbols hselection s hs) hnot

def fourPriced : Table Symbol ℚ :=
  Table.ofList [("AAPL", 100), ("AMZN", 40), ("GOOG", 80), ("MSFT", 7)]

/-- Prices that two of the selected shares lack, one by not being above zero. -/
def twoUnpriced : Table Symbol ℚ := Table.ofList [("AAPL", 100), ("AMZN", 40), ("GOOG", 0)]

/-- The lowest of the three scores that count takes the whole tilt and is left with nothing, and of
a value of 1000 the others get thirteen and eleven parts of 24, rounded up and down.  Without prices
for two of the three it is the lesser symbol that is missed. -/
theorem compute_outcome_skewedScores :
    (WeightingPolicy.zScoreTilt (1 : ℚ)).Admissible ∧
    (∃ target, compute Date.latest skewedScores fourPriced 3 1000 (.zScoreTilt 1) = .ok target ∧
      target.weights.keys = ["AAPL", "GOOG", "MSFT"] ∧
      target.portfolio.positions.keys = ["AAPL", "MSFT"] ∧
      target.portfolio.quantity "AAPL" * 100 = 541.667 ∧
      target.portfolio.quantity "MSFT" * 7 = 458.333 ∧
      Allotted Date.latest skewedScores fourPriced 3 1000 (.zScoreTilt 1) target) ∧
    compute Date.latest skewedScores twoUnpriced 3 1000 (.zScoreTilt 1) =
      .error (.missingPrice "GOOG") := by
  have hpolicy : (WeightingPolicy.zScoreTilt (1 : ℚ)).Admissible := by
    show (0.0 : ℚ) < 1 ∧ (1 : ℚ) ≤ 1.0
    norm_num
  have hcomputed : (compute Date.latest skewedScores fourPriced 3 1000
      (.zScoreTilt 1)).toOption.any (fun target =>
        decide (target.weights.keys = ["AAPL", "GOOG", "MSFT"] ∧
          target.portfolio.positions.keys = ["AAPL", "MSFT"] ∧
          target.portfolio.quantity "AAPL" * 100 = 541.667 ∧
          target.portfolio.quantity "MSFT" * 7 = 458.333)) = true := by
    decide +kernel
  obtain ⟨target, htarget, hheld⟩ := Except.exists_of_toOption_any hcomputed
  obtain ⟨hweights, hpositions, haapl, hmsft⟩ := of_decide_eq_true hheld
  obtain ⟨-, hallotted, -⟩ := compute_outcome hpolicy Date.latest skewedScores fourPriced 3 1000
  obtain ⟨-, -, hrefused⟩ := compute_outcome hpolicy Date.latest skewedScores twoUnpriced 3 1000
  refine ⟨hpolicy,
    ⟨target, htarget, hweights, hpositions, haapl, hmsft, hallotted target htarget⟩, ?_⟩
  have hselection : Selection skewedScores 3 {"AAPL", "GOOG", "MSFT"} :=
    ⟨by decide +kernel, by decide +kernel, by decide +kernel⟩
  refine (hrefused _).2 (.price (by norm_num) le_rfl hselection (by decide) ?_ ?_)
  · rintro ⟨price, hprice, hpos⟩
    have hzero : twoUnpriced.get? "GOOG" = some 0 := by decide +kernel
    rw [hzero] at hprice
    exact hpos.ne (Option.some.inj hprice)
  · intro s hs hlt
    have hleast : ∀ s ∈ ({"AAPL", "GOOG", "MSFT"} : Finset Symbol), compare s "GOOG" = .lt →
        s = "AAPL" := by
      decide
    obtain rfl := hleast s hs hlt
    exact ⟨100, by decide +kernel, by norm_num⟩

end Target

end FactorPortfolio
