import FactorPortfolio.Proofs.Except
import FactorPortfolio.Proofs.Table
import FactorPortfolio.Target.Basic
import Mathlib.Tactic.Common

/-!
# What a target holds

The weighted symbols of a target all have prices above zero, and its positions are what their parts
of the value buy, symbol by symbol, without those of quantity zero (`computed_of_compute`).  The
value decides about these quantities and about nothing else (`related_compute`).
-/

namespace FactorPortfolio.Target

variable {α : Type} [Scalar α] {prices : Table Symbol α} {value : α}

theorem positivePrice_eq_ok_iff {symbol : Symbol} {price : α} :
    positivePrice prices symbol = .ok price ↔
      prices.get? symbol = some price ∧ (0.0 : α) < price := by
  rw [positivePrice]
  cases prices.get? symbol with
  | none => simp
  | some x =>
    simp only
    split
    · rename_i hx
      rw [Except.ok.injEq, Option.some.injEq]
      exact ⟨fun h => ⟨h, h ▸ hx⟩, And.left⟩
    · rename_i hx
      refine iff_of_false nofun ?_
      rintro ⟨h, hprice⟩
      exact hx (Option.some.inj h ▸ hprice)

/-- The position that a weighted symbol gets; none if its quantity is zero. -/
def position? (prices : Table Symbol α) (value : α) (e : Symbol × α) : Option (Symbol × α) :=
  (prices.get? e.1).bind fun price =>
    if round3 (value * e.2) / price == 0.0 then none
    else some (e.1, round3 (value * e.2) / price)

theorem symbol_of_position? {e position : Symbol × α}
    (h : position? prices value e = some position) : position.1 = e.1 := by
  obtain ⟨price, _, h⟩ := Option.bind_eq_some_iff.1 h
  split at h
  · cases h
  · cases h
    rfl

/-- **One symbol after the other gets its position**, in order of the symbols. -/
theorem foldlM_invest {l : List (Symbol × α)} (hl : l.Pairwise fun a b => compare a.1 b.1 = .lt)
    {p p' : Portfolio α}
    (hp : ∀ e ∈ p.positions.entries, ∀ e' ∈ l, compare e.1 e'.1 = .lt)
    (h : l.foldlM (invest prices value) p = .ok p') :
    p'.cash = p.cash ∧
      (∀ e ∈ l, ∃ price, prices.get? e.1 = some price ∧ (0.0 : α) < price) ∧
      p'.positions.entries = p.positions.entries ++ l.filterMap (position? prices value) := by
  induction l generalizing p with
  | nil =>
    obtain rfl := Except.pure_eq_ok_iff.1 h
    simp
  | cons e l ih =>
    obtain ⟨hhead, htail⟩ := List.pairwise_cons.1 hl
    rw [List.foldlM_cons] at h
    obtain ⟨p₁, hinvest, h⟩ := Except.bind_eq_ok_iff.1 h
    obtain ⟨price, hprice, hinvest⟩ := Except.bind_eq_ok_iff.1 hinvest
    obtain rfl := Except.pure_eq_ok_iff.1 hinvest
    obtain ⟨hget, hpos⟩ := positivePrice_eq_ok_iff.1 hprice
    have hlast : ∀ e' ∈ p.positions.entries, compare e'.1 e.1 = .lt :=
      fun e' he' => hp e' he' e List.mem_cons_self
    -- the symbol goes to the end of the positions, or nowhere
    have hpositions : (p.setQuantity e.1 (round3 (value * e.2) / price)).positions.entries =
        p.positions.entries ++ (position? prices value e).toList := by
      rw [Portfolio.setQuantity, position?, hget, Option.bind_some]
      split
      · rw [Table.erase_of_get?_eq_none (Table.get?_eq_none_of_lt hlast)]
        simp
      · exact Table.entries_insert_of_lt _ _ hlast
    have hcash : (p.setQuantity e.1 (round3 (value * e.2) / price)).cash = p.cash := by
      rw [Portfolio.setQuantity]
      split <;> rfl
    have hafter : ∀ e₁ ∈ (p.setQuantity e.1 (round3 (value * e.2) / price)).positions.entries,
        ∀ e' ∈ l, compare e₁.1 e'.1 = .lt := by
      intro e₁ he₁ e' he'
      rw [hpositions, List.mem_append, Option.mem_toList] at he₁
      rcases he₁ with he₁ | he₁
      · exact hp e₁ he₁ e' (List.mem_cons_of_mem _ he')
      · rw [symbol_of_position? he₁]
        exact hhead e' he'
    obtain ⟨hcash', hprices, hentries⟩ := ih htail hafter h
    refine ⟨hcash'.trans hcash, List.forall_mem_cons.2 ⟨⟨price, hget, hpos⟩, hprices⟩, ?_⟩
    rw [hentries, hpositions, List.append_assoc, List.filterMap_cons]
    cases position? prices value e <;> rfl

variable {date : Date} {scores : Table Symbol α} {numTickers : Nat} {policy : WeightingPolicy α}
  {target : Target α}

/-- The value is a number above the least one. -/
def IsEnough (value : α) : Prop := ¬ (Scalar.isNaN value || value ≤ minValue) = true

theorem compute_of_isEnough (h : IsEnough value) :
    compute date scores prices numTickers value policy =
      if numTickers < minTickers then .error (.tooFewTickers minTickers numTickers)
      else do
        let weights ← policy.weights scores numTickers
        let portfolio ← weights.entries.foldlM (invest prices value) (.ofCash 0.0)
        return ⟨date, portfolio, weights, scores.filter fun symbol _ => weights.contains symbol⟩ :=
  if_neg h

/-- **Of values that are enough each is as good as the other** but for the quantities: there is a
target or the same fault, and a target has the same date, weights and scores. -/
theorem related_compute {value' : α} (h : IsEnough value) (h' : IsEnough value') (date : Date)
    (scores prices : Table Symbol α) (numTickers : Nat) (policy : WeightingPolicy α) :
    Except.Related (fun t t' => t.date = t'.date ∧ t.weights = t'.weights ∧ t.scores = t'.scores)
      (compute date scores prices numTickers value policy)
      (compute date scores prices numTickers value' policy) := by
  rw [compute_of_isEnough h, compute_of_isEnough h']
  split
  · exact .error _
  refine Except.related_bind_left fun weights _ => ?_
  have hstep : ∀ e p p', Except.Related (fun _ _ => True) (invest prices value p e)
      (invest prices value' p' e) := by
    intro e p p'
    exact Except.related_bind_left fun price _ => .ok trivial
  exact (Except.related_foldlM (fun e p p' _ => hstep e p p') weights.entries trivial).bind
    fun _ _ _ _ _ => .ok ⟨rfl, rfl, rfl⟩

structure Computed (date : Date) (scores prices : Table Symbol α) (numTickers : Nat) (value : α)
    (policy : WeightingPolicy α) (target : Target α) : Prop where
  date_eq : target.date = date
  worth : ¬ value ≤ minValue
  tickers : minTickers ≤ numTickers
  weights : policy.weights scores numTickers = .ok target.weights
  scores_eq : target.scores = scores.filter fun symbol _ => target.weights.contains symbol
  priced : ∀ e ∈ target.weights.entries, ∃ price, prices.get? e.1 = some price ∧ (0.0 : α) < price
  cash : target.portfolio.cash = 0.0
  positions : target.portfolio.positions.entries =
    target.weights.entries.filterMap (position? prices value)

theorem computed_of_compute (h : compute date scores prices numTickers value policy = .ok target) :
    Computed date scores prices numTickers value policy target := by
  rw [compute] at h
  split at h
  · cases h
  split at h
  · cases h
  rename_i hvalue htickers
  obtain ⟨weights, hweights, h⟩ := Except.bind_eq_ok_iff.1 h
  obtain ⟨portfolio, hportfolio, h⟩ := Except.bind_eq_ok_iff.1 h
  obtain rfl := Except.pure_eq_ok_iff.1 h
  obtain ⟨hcash, hprices, hpositions⟩ :=
    foldlM_invest weights.ascending (by intro e he; cases he) hportfolio
  refine ⟨rfl, ?_, Nat.not_lt.1 htickers, hweights, rfl, hprices, hcash, hpositions⟩
  intro hle
  exact hvalue (by simp [hle])

theorem Computed.get?_positions (h : Computed date scores prices numTickers value policy target)
    {symbol : Symbol} {weight price : α} (hweight : target.weights.get? symbol = some weight)
    (hprice : prices.get? symbol = some price) :
    target.portfolio.positions.get? symbol =
      if round3 (value * weight) / price == 0.0 then none
      else some (round3 (value * weight) / price) := by
  have hposition : position? prices value (symbol, weight) =
      (if round3 (value * weight) / price == 0.0 then none
        else some (round3 (value * weight) / price)).map (Prod.mk symbol) := by
    rw [position?, hprice, Option.bind_some]
    split <;> rfl
  refine Option.ext fun x => ?_
  rw [Table.get?_eq_some_iff, h.positions, List.mem_filterMap]
  constructor
  · rintro ⟨⟨k, w⟩, he, hx⟩
    obtain rfl : symbol = k := symbol_of_position? hx
    obtain rfl := Option.some.inj (hweight.symm.trans (Table.get?_eq_some_iff.2 he))
    obtain ⟨y, hy, hxy⟩ := Option.map_eq_some_iff.1 (hposition ▸ hx)
    cases hxy
    exact hy
  · intro hx
    exact ⟨(symbol, weight), Table.get?_eq_some_iff.1 hweight, by rw [hposition, hx]; rfl⟩

end FactorPortfolio.Target
