import FactorPortfolio.Proofs.Portfolio.Traded

/-!
# Trades lead from one portfolio to another

A portfolio that is made by setting quantities holds no position of zero, so that its quantities say
all of its positions (`Portfolio.Built.positions_eq`).  The trades between two such portfolios
therefore lead from the one to the other exactly (`Trade.Leads`); they are missing only if a symbol
whose quantity changes has no price (`Trade.diff_eq_error_iff`).
-/

namespace FactorPortfolio

variable {α : Type} [Field α] [LinearOrder α] [FloorRing α] [InexactFunctions α]

namespace Portfolio

/-- A portfolio that is made of cash by setting quantities. -/
inductive Built : Portfolio α → Prop
  | ofCash (cash : α) : Built (ofCash cash)
  | setQuantity {p : Portfolio α} (h : Built p) (symbol : Symbol) (quantity : α) :
      Built (p.setQuantity symbol quantity)

theorem Built.get?_positions {p : Portfolio α} (h : p.Built) (s : Symbol) :
    p.positions.get? s = if p.quantity s = 0 then none else some (p.quantity s) := by
  induction h with
  | ofCash cash =>
    refine (if_pos ?_).symm
    exact Exact.zero_eq
  | @setQuantity p h symbol quantity ih =>
    rw [quantity_setQuantity]
    by_cases hs : s = symbol
    · subst hs
      rw [if_pos rfl, Portfolio.setQuantity, Exact.zero_eq]
      by_cases hq : quantity = 0
      · rw [if_pos hq, if_pos (beq_iff_eq.2 hq), Table.get?_erase, if_pos rfl]
      · rw [if_neg hq, if_neg (by simpa using hq), Table.get?_insert_self]
    · rw [if_neg hs, ← ih, Portfolio.setQuantity]
      split
      · rw [Table.get?_erase, if_neg hs]
      · exact Table.get?_insert_of_ne _ hs _

/-- **Quantities say all of the positions.** -/
theorem Built.positions_eq {p p' : Portfolio α} (h : p.Built) (h' : p'.Built)
    (heq : ∀ s, p.quantity s = p'.quantity s) : p.positions = p'.positions := by
  refine Table.ext_get? fun s => ?_
  rw [h.get?_positions, h'.get?_positions, heq s]

theorem Built.tradeAll {p : Portfolio α} (h : p.Built) (trades : List (Trade α)) :
    (p.tradeAll trades).Built := by
  induction trades generalizing p with
  | nil => exact h
  | cons t rest ih => exact ih (h.setQuantity t.symbol _)

end Portfolio

namespace Trade

variable {current target : Portfolio α} {prices : Table Symbol α}

def Unpriced (current target : Portfolio α) (prices : Table Symbol α) (s : Symbol) : Prop :=
  target.quantity s ≠ current.quantity s ∧ prices.get? s = none

theorem change?_of_unpriced {s : Symbol} (h : Unpriced current target prices s) :
    change? current target prices s = .error (.missingPrice s) := by
  have hdelta : ¬ (target.quantity s - current.quantity s == 0.0) = true := by
    rw [beq_iff_eq, Exact.zero_eq, sub_eq_zero]
    exact h.1
  rw [change?, if_neg hdelta, h.2]

theorem exists_change? {s : Symbol} (h : ¬ Unpriced current target prices s) :
    ∃ change, change? current target prices s = .ok change := by
  rw [change?]
  split
  · exact ⟨_, rfl⟩
  · rename_i hdelta
    rw [beq_iff_eq, Exact.zero_eq, sub_eq_zero] at hdelta
    cases hprice : prices.get? s with
    | none => exact absurd ⟨hdelta, hprice⟩ h
    | some price => exact ⟨_, rfl⟩

/-- **Trades are missing if a symbol whose quantity changes has no price**, and the least such
symbol is named. -/
theorem diff_eq_error_iff {e : TargetError α} : diff current target prices = .error e ↔
    ∃ s, Unpriced current target prices s ∧
      (∀ s', compare s' s = .lt → ¬ Unpriced current target prices s') ∧ e = .missingPrice s := by
  rw [diff, Except.map_eq_error_iff, Except.mapM_eq_error_iff
    (P := fun s => ¬ Unpriced current target prices s) (g := .missingPrice)
    (fun _ _ => Table.not_lt_of_lt) (Table.keys_pairwise _) (fun s _ hs => exists_change? hs)
    fun s _ hs => change?_of_unpriced (not_not.1 hs)]
  simp only [not_not]
  -- only symbols that one of the portfolios holds can change
  constructor
  · rintro ⟨s, -, hs, hleast, he⟩
    exact ⟨s, hs, fun s' hlt hs' => hleast s' (mem_symbols_of_ne hs'.1) hlt hs', he⟩
  · rintro ⟨s, hs, hleast, he⟩
    exact ⟨s, mem_symbols_of_ne hs.1, hs, fun s' _ => hleast s', he⟩

theorem exists_diff_iff : (∃ trades, diff current target prices = .ok trades) ↔
    ∀ s, ¬ Unpriced current target prices s := by
  constructor
  · rintro ⟨trades, h⟩ s ⟨hne, hprice⟩
    obtain ⟨t, ht, rfl⟩ := List.mem_map.1 ((mem_symbols_diff_iff h).2 hne)
    obtain ⟨_, _, hpriced⟩ := (mem_diff_iff h).1 ht
    rw [hprice] at hpriced
    cases hpriced
  · intro hpriced
    cases h : diff current target prices with
    | ok trades => exact ⟨trades, rfl⟩
    | error e =>
      obtain ⟨s, hs, _⟩ := diff_eq_error_iff.1 h
      exact absurd hs (hpriced s)

/-- Trades that lead from one portfolio to another, one for each symbol whose quantity changes. -/
structure Leads (current target : Portfolio α) (prices : Table Symbol α)
    (trades : List (Trade α)) : Prop where
  ordered : trades.Pairwise fun a b => compare a.symbol b.symbol = .lt
  ne_zero : ∀ t ∈ trades, t.quantity ≠ 0
  priced : ∀ t ∈ trades, prices.get? t.symbol = some t.price
  reaches : (current.tradeAll trades).positions = target.positions

/-- Carried out on whatever holds as much as the one portfolio, trades leave what the other has. -/
theorem quantity_tradeAll_diff {trades : List (Trade α)}
    (h : diff current target prices = .ok trades) {p : Portfolio α}
    (hp : ∀ s, p.quantity s = current.quantity s) (s : Symbol) :
    (p.tradeAll trades).quantity s = target.quantity s := by
  by_cases hs : s ∈ trades.map symbol
  · obtain ⟨t, ht, rfl⟩ := List.mem_map.1 hs
    rw [Portfolio.quantity_tradeAll_of_mem p (nodup_symbols_diff h) ht, hp,
      ((mem_diff_iff h).1 ht).1, add_sub_cancel]
  · rw [Portfolio.quantity_tradeAll_of_not_mem p hs, hp, quantity_eq_of_not_mem_diff h hs]

theorem leads_diff (hcurrent : current.Built) (htarget : target.Built) {trades : List (Trade α)}
    (h : diff current target prices = .ok trades) : Leads current target prices trades where
  ordered := diff_pairwise h
  ne_zero _ ht := ((mem_diff_iff h).1 ht).2.1
  priced _ ht := ((mem_diff_iff h).1 ht).2.2
  reaches := (hcurrent.tradeAll trades).positions_eq htarget (quantity_tradeAll_diff h fun _ => rfl)

variable (current prices) in
theorem diff_self : diff current current prices = .ok [] := by
  obtain ⟨trades, h⟩ := exists_diff_iff.2 fun s (hs : Unpriced current current prices s) => hs.1 rfl
  have hnone : trades = [] := by
    refine List.eq_nil_iff_forall_not_mem.2 fun t ht => ?_
    exact (mem_symbols_diff_iff h).1 (List.mem_map_of_mem ht) rfl
  rw [h, hnone]

/-- **The difference law.**  Trades are missing only if a symbol whose quantity changes has no
price, and the least such symbol is named; they lead from the one portfolio to the other; there are
none from a portfolio to itself; and by way of a third portfolio the same positions are reached. -/
theorem diff_law (hcurrent : current.Built) (htarget : target.Built) (prices : Table Symbol α) :
    (∀ e, diff current target prices = .error e ↔
      ∃ s, Unpriced current target prices s ∧
        (∀ s', compare s' s = .lt → ¬ Unpriced current target prices s') ∧ e = .missingPrice s) ∧
    ((∃ trades, diff current target prices = .ok trades) ↔
      ∀ s, ¬ Unpriced current target prices s) ∧
    (∀ trades, diff current target prices = .ok trades → Leads current target prices trades) ∧
    (∀ prices', diff current current prices' = .ok []) ∧
    (∀ middle prices' prices'' first second whole, diff current middle prices' = .ok first →
      diff middle target prices'' = .ok second → diff current target prices = .ok whole →
      ((current.tradeAll first).tradeAll second).positions =
        (current.tradeAll whole).positions) := by
  refine ⟨fun e => diff_eq_error_iff, exists_diff_iff, fun trades => leads_diff hcurrent htarget,
    diff_self current, ?_⟩
  intro middle prices' prices'' first second whole hfirst hsecond hwhole
  have hvia := quantity_tradeAll_diff hsecond (quantity_tradeAll_diff hfirst fun _ => rfl)
  rw [(leads_diff hcurrent htarget hwhole).reaches]
  exact ((hcurrent.tradeAll first).tradeAll second).positions_eq htarget hvia

/-- A portfolio that owes a share it does not hold. -/
def shortOfOne : Portfolio ℚ :=
  (((Portfolio.ofCash 100).setQuantity "AAPL" 2).setQuantity "GOOG" (-1)).setQuantity "MSFT" 3

/-- Holdings of three shares, one of them as many as of `shortOfOne`. -/
def longOfThree : Portfolio ℚ :=
  (((Portfolio.ofCash 0).setQuantity "GOOG" 4).setQuantity "MSFT" 3).setQuantity "TSLA" 0.5

/-- A position is closed, a short one is turned over and a new one opened, and the price of what
stays as it is is not asked for; of two prices that are missing the lesser symbol is named. -/
theorem diff_law_shortOfOne :
    (∃ trades, diff shortOfOne longOfThree
        (Table.ofList [("AAPL", 10), ("GOOG", 20), ("TSLA", 8)]) = .ok trades ∧
      trades.map (fun t => (t.symbol, t.quantity, t.price)) =
        [("AAPL", -2, 10), ("GOOG", 5, 20), ("TSLA", 0.5, 8)] ∧
      (shortOfOne.tradeAll trades).positions = longOfThree.positions) ∧
    diff shortOfOne longOfThree (Table.ofList [("AAPL", 10), ("MSFT", 7)]) =
      .error (.missingPrice "GOOG") := by
  have hcurrent : shortOfOne.Built :=
    (((Portfolio.Built.ofCash 100).setQuantity _ _).setQuantity _ _).setQuantity _ _
  have htarget : longOfThree.Built :=
    (((Portfolio.Built.ofCash 0).setQuantity _ _).setQuantity _ _).setQuantity _ _
  obtain ⟨-, -, hleads, -⟩ := diff_law hcurrent htarget
    (Table.ofList [("AAPL", 10), ("GOOG", 20), ("TSLA", 8)])
  obtain ⟨herror, -⟩ := diff_law hcurrent htarget (Table.ofList [("AAPL", 10), ("MSFT", 7)])
  have htrades : (diff shortOfOne longOfThree
      (Table.ofList [("AAPL", 10), ("GOOG", 20), ("TSLA", 8)])).toOption.any (fun trades =>
        decide (trades.map (fun t => (t.symbol, t.quantity, t.price)) =
          [("AAPL", -2, 10), ("GOOG", 5, 20), ("TSLA", 0.5, 8)])) = true := by
    decide +kernel
  obtain ⟨trades, hdiff, hmap⟩ := Except.exists_of_toOption_any htrades
  refine ⟨⟨trades, hdiff, of_decide_eq_true hmap, (hleads trades hdiff).reaches⟩, ?_⟩
  refine (herror _).2 ⟨"GOOG", ⟨by decide +kernel, by decide +kernel⟩, ?_, rfl⟩
  intro s hs hunpriced
  have hmem := mem_symbols_of_ne hunpriced.1
  have hleast : ∀ s ∈ (KeySet.ofList (shortOfOne.positions.keys ++
      longOfThree.positions.keys)).keys, compare s "GOOG" = .lt →
        (Table.ofList [("AAPL", (10 : ℚ)), ("MSFT", 7)]).get? s ≠ none := by
    decide +kernel
  exact hleast s hmem hs hunpriced.2

end Trade

end FactorPortfolio
