import Mathlib.Algebra.Order.BigOperators.Group.List
import Mathlib.Tactic.Linarith
import FactorPortfolio.Proofs.Trades.Ledger

/-!
# Small sells are taken out of the buys

Netting settles each trade between nothing and what it was: a buy may shrink, a small sell may
shrink, a large sell stays as it is (`Settles`, `settlesAll_absorbSells`).  What the buys lose in
dollars is what the small sells are relieved of, and it is as much as both are worth
(`dollars_absorbSells`).  Where some price is not above zero, the buys lose no more than that
(`dollars_absorbSells_le`).
-/

namespace FactorPortfolio.Trade

variable {α : Type} [Field α] [LinearOrder α] [FloorRing α] [InexactFunctions α]
  {threshold : α}

/-! ### What becomes of each trade -/

/-- What netting may make of a trade. -/
structure Settles (threshold : α) (a b : Trade α) : Prop where
  symbol_eq : b.symbol = a.symbol
  price_eq : b.price = a.price
  buy : 0 ≤ a.quantity → 0 ≤ b.quantity ∧ b.quantity ≤ a.quantity
  sell : a.quantity ≤ 0 → a.quantity ≤ b.quantity ∧ b.quantity ≤ 0
  large : a.quantity ≤ 0 → threshold < |a.quantity| → b.quantity = a.quantity

theorem Settles.refl (t : Trade α) : Settles threshold t t where
  symbol_eq := rfl
  price_eq := rfl
  buy h := ⟨h, le_refl _⟩
  sell h := ⟨le_refl _, h⟩
  large _ _ := rfl

theorem Settles.trans {a b c : Trade α} (h : Settles threshold a b) (h' : Settles threshold b c) :
    Settles threshold a c where
  symbol_eq := h'.symbol_eq.trans h.symbol_eq
  price_eq := h'.price_eq.trans h.price_eq
  buy ha := by
    obtain ⟨hb, hle⟩ := h.buy ha
    obtain ⟨hc, hle'⟩ := h'.buy hb
    exact ⟨hc, hle'.trans hle⟩
  sell ha := by
    obtain ⟨hle, hb⟩ := h.sell ha
    obtain ⟨hle', hc⟩ := h'.sell hb
    exact ⟨hle.trans hle', hc⟩
  large ha hlarge := by
    have hb := h.large ha hlarge
    rw [← hb] at ha hlarge ⊢
    exact h'.large ha hlarge

theorem settles_trans {l m n : List (Trade α)} (h : List.Forall₂ (Settles threshold) l m)
    (h' : List.Forall₂ (Settles threshold) m n) : List.Forall₂ (Settles threshold) l n := by
  induction h generalizing n with
  | nil => exact h'
  | cons hab _ ih =>
    cases h' with
    | cons hbc hrest => exact .cons (hab.trans hbc) (ih hrest)

/-- Trades one by one, in whatever order. -/
def SettlesAll (threshold : α) (l l' : List (Trade α)) : Prop :=
  ∃ m, List.Forall₂ (Settles threshold) l m ∧ m.Perm l'

/-- What some trades are worth; sells count as negative. -/
def dollars (trades : List (Trade α)) : α := (trades.map fun t => t.quantity * t.price).sum

@[simp] theorem dollars_nil : dollars ([] : List (Trade α)) = 0 := rfl

@[simp] theorem dollars_cons (t : Trade α) (rest : List (Trade α)) :
    dollars (t :: rest) = t.quantity * t.price + dollars rest := by
  simp [dollars]

theorem dollars_append (l l' : List (Trade α)) : dollars (l ++ l') = dollars l + dollars l' := by
  simp [dollars]

theorem dollars_perm {l l' : List (Trade α)} (h : l.Perm l') : dollars l = dollars l' :=
  (h.map _).sum_eq

namespace SettlesAll

variable {l l' l'' m m' : List (Trade α)}

theorem of_perm (h : l.Perm l') : SettlesAll threshold l l' :=
  ⟨l, List.forall₂_same.2 fun t _ => .refl t, h⟩

theorem trans (h : SettlesAll threshold l l') (h' : SettlesAll threshold l' l'') :
    SettlesAll threshold l l'' := by
  obtain ⟨m, hm, hperm⟩ := h
  obtain ⟨m', hm', hperm'⟩ := h'
  obtain ⟨n, hn, hperm''⟩ := List.perm_comp_forall₂ hperm hm'
  exact ⟨n, settles_trans hm hn, hperm''.trans hperm'⟩

theorem append (h : SettlesAll threshold l l') (h' : SettlesAll threshold m m') :
    SettlesAll threshold (l ++ m) (l' ++ m') := by
  obtain ⟨n, hn, hperm⟩ := h
  obtain ⟨n', hn', hperm'⟩ := h'
  exact ⟨n ++ n', List.rel_append hn hn', hperm.append hperm'⟩

theorem cons {a b : Trade α} (hab : Settles threshold a b) (h : SettlesAll threshold l l') :
    SettlesAll threshold (a :: l) (b :: l') := by
  obtain ⟨m, hm, hperm⟩ := h
  exact ⟨b :: m, .cons hab hm, hperm.cons b⟩

theorem exists_of_mem (h : SettlesAll threshold l l') {a : Trade α} (ha : a ∈ l) :
    ∃ b ∈ l', Settles threshold a b := by
  obtain ⟨n, hn, hperm⟩ := h
  induction hn generalizing l' with
  | nil => cases ha
  | @cons a' b' _ _ hab _ ih =>
    rcases List.mem_cons.1 ha with rfl | ha
    · exact ⟨b', hperm.mem_iff.1 List.mem_cons_self, hab⟩
    · obtain ⟨b, hb, hsettles⟩ := ih ha (.refl _)
      exact ⟨b, hperm.mem_iff.1 (List.mem_cons_of_mem _ hb), hsettles⟩

theorem forall_mem (h : SettlesAll threshold l l') {P : Trade α → Prop} (hl : ∀ a ∈ l, P a)
    (hP : ∀ a b, Settles threshold a b → P a → P b) : ∀ b ∈ l', P b := by
  obtain ⟨n, hn, hperm⟩ := h
  intro b hb
  have hb := hperm.mem_iff.2 hb
  clear hperm
  induction hn with
  | nil => cases hb
  | cons hab _ ih =>
    obtain ⟨ha, hl⟩ := List.forall_mem_cons.1 hl
    rcases List.mem_cons.1 hb with rfl | hb
    · exact hP _ _ hab ha
    · exact ih hl hb

theorem sum_mul_price (h : SettlesAll threshold l l') (f : Symbol → α) :
    (l.map fun a => f a.symbol * a.price).sum = (l'.map fun b => f b.symbol * b.price).sum := by
  obtain ⟨n, hn, hperm⟩ := h
  rw [← (hperm.map fun b => f b.symbol * b.price).sum_eq]
  clear hperm
  induction hn with
  | nil => rfl
  | cons hab _ ih =>
    rw [List.map_cons, List.sum_cons, ih, List.map_cons, List.sum_cons, hab.symbol_eq,
      hab.price_eq]

theorem sum_eq_dollars (h : SettlesAll threshold l l') {f : Symbol → α}
    (hf : ∀ b ∈ l', f b.symbol = b.quantity) :
    (l.map fun a => f a.symbol * a.price).sum = dollars l' := by
  rw [h.sum_mul_price, dollars]
  exact congrArg List.sum (List.map_congr_left fun b hb => by rw [hf b hb])

end SettlesAll

theorem Settles.of_le {a b : Trade α} (hsymbol : b.symbol = a.symbol) (hprice : b.price = a.price)
    (hb : 0 ≤ b.quantity) (hle : b.quantity ≤ a.quantity) : Settles threshold a b where
  symbol_eq := hsymbol
  price_eq := hprice
  buy _ := ⟨hb, hle⟩
  sell ha := by
    have ha : a.quantity = 0 := le_antisymm ha (hb.trans hle)
    rw [ha] at hle ⊢
    exact ⟨hb, hle⟩
  large ha _ := le_antisymm hle (ha.trans hb)

theorem nonneg_of_settlesAll {buys buys' : List (Trade α)}
    (h : SettlesAll threshold buys buys') (hbuys : ∀ b ∈ buys, 0 ≤ b.quantity) :
    ∀ b ∈ buys', 0 ≤ b.quantity :=
  h.forall_mem hbuys fun _ _ hab ha => (hab.buy ha).1

/-! ### The first of some sells -/

def smallDollars (threshold : α) (sells : List (Trade α)) : α :=
  ((sells.filter fun s => |s.quantity| ≤ threshold).map amount).sum

theorem smallDollars_cons_small {sell : Trade α} (h : |sell.quantity| ≤ threshold)
    (rest : List (Trade α)) :
    smallDollars threshold (sell :: rest) = sell.amount + smallDollars threshold rest := by
  simp [smallDollars, h]

theorem smallDollars_cons_large {sell : Trade α} (h : ¬ |sell.quantity| ≤ threshold)
    (rest : List (Trade α)) :
    smallDollars threshold (sell :: rest) = smallDollars threshold rest := by
  simp [smallDollars, h]

/-- A small sell after what remains of its amount. -/
def relieved (sell : Trade α) (remaining : α) : Trade α :=
  { sell with quantity := if 0 < sell.price then -remaining / sell.price else 0 }

theorem absorbSells_cons_small {sell : Trade α} (h : |sell.quantity| ≤ threshold)
    (buys rest : List (Trade α)) : absorbSells threshold buys (sell :: rest) =
      ((absorbSells threshold (sortByAmount (absorb sell.amount buys).2) rest).1,
        sell.relieved (absorb sell.amount buys).1 ::
          (absorbSells threshold (sortByAmount (absorb sell.amount buys).2) rest).2) := by
  rw [absorbSells, if_pos (show Scalar.abs sell.quantity ≤ threshold from h)]
  simp only [Exact.zero_eq]
  rfl

theorem absorbSells_cons_large {sell : Trade α} (h : ¬ |sell.quantity| ≤ threshold)
    (buys rest : List (Trade α)) : absorbSells threshold buys (sell :: rest) =
      ((absorbSells threshold buys rest).1, sell :: (absorbSells threshold buys rest).2) := by
  rw [absorbSells, if_neg (show ¬ Scalar.abs sell.quantity ≤ threshold from h)]

/-! ### Taking dollars out of buys -/

variable [IsStrictOrderedRing α]

theorem amount_buy {t : Trade α} (hq : 0 ≤ t.quantity) (hp : 0 < t.price) :
    t.amount = t.quantity * t.price := abs_of_nonneg (mul_nonneg hq hp.le)

theorem amount_sell {t : Trade α} (hq : t.quantity ≤ 0) (hp : 0 < t.price) :
    t.amount = -(t.quantity * t.price) := abs_of_nonpos (mul_nonpos_of_nonpos_of_nonneg hq hp.le)

theorem dollars_nonneg {trades : List (Trade α)} (hq : ∀ t ∈ trades, 0 ≤ t.quantity)
    (hp : ∀ t ∈ trades, 0 < t.price) : 0 ≤ dollars trades := by
  refine List.sum_nonneg fun x hx => ?_
  obtain ⟨t, ht, rfl⟩ := List.mem_map.1 hx
  exact mul_nonneg (hq t ht) (hp t ht).le

theorem absorb_cons (amount : α) (buy : Trade α) (rest : List (Trade α)) :
    absorb amount (buy :: rest) =
      if 0 < buy.price then
        if amount ≤ 0 then (amount, buy :: rest)
        else if buy.amount < amount then
          ((absorb (amount - buy.amount) rest).1,
            { buy with quantity := 0 } :: (absorb (amount - buy.amount) rest).2)
        else (0, { buy with quantity := (buy.amount - amount) / buy.price } :: rest)
      else ((absorb amount rest).1, buy :: (absorb amount rest).2) := by
  rw [absorb]
  simp only [Exact.zero_eq, sub_neg, neg_sub]

section

variable {buys : List (Trade α)} (hbuys : ∀ b ∈ buys, 0 ≤ b.quantity)

include hbuys

theorem settles_absorb (amount : α) :
    List.Forall₂ (Settles threshold) buys (absorb amount buys).2 := by
  induction buys generalizing amount with
  | nil => exact .nil
  | cons buy rest ih =>
    obtain ⟨hbuy, hrest⟩ := List.forall_mem_cons.1 hbuys
    rw [absorb_cons]
    split_ifs with hprice hamount hleft
    · exact List.forall₂_same.2 fun t _ => .refl t
    · exact .cons (.of_le rfl rfl le_rfl hbuy) (ih hrest _)
    · refine .cons (.of_le rfl rfl ?_ ?_) (List.forall₂_same.2 fun t _ => .refl t)
      · exact div_nonneg (sub_nonneg.2 (not_lt.1 hleft)) hprice.le
      · rw [amount_buy hbuy hprice, div_le_iff₀ hprice]
        linarith
    · exact .cons (.refl buy) (ih hrest _)

/-- **What the buys lose in dollars is what is taken off the amount.** -/
theorem dollars_absorb (amount : α) :
    dollars (absorb amount buys).2 + amount = dollars buys + (absorb amount buys).1 := by
  induction buys generalizing amount with
  | nil => rfl
  | cons buy rest ih =>
    obtain ⟨hbuy, hrest⟩ := List.forall_mem_cons.1 hbuys
    rw [absorb_cons]
    split_ifs with hprice hamount hleft
    · rfl
    · have := ih hrest (amount - buy.amount)
      rw [amount_buy hbuy hprice] at this ⊢
      simp only [dollars_cons]
      linarith
    · simp only [dollars_cons, div_mul_cancel₀ _ hprice.ne', amount_buy hbuy hprice]
      linarith
    · have := ih hrest amount
      simp only [dollars_cons]
      linarith

theorem remaining_absorb_bounds {amount : α} (hamount : 0 ≤ amount) :
    0 ≤ (absorb amount buys).1 ∧ (absorb amount buys).1 ≤ amount := by
  induction buys generalizing amount with
  | nil => exact ⟨hamount, le_rfl⟩
  | cons buy rest ih =>
    obtain ⟨hbuy, hrest⟩ := List.forall_mem_cons.1 hbuys
    rw [absorb_cons]
    split_ifs with hprice hstop hleft
    · exact ⟨hamount, le_rfl⟩
    · obtain ⟨hlow, hhigh⟩ := ih hrest (sub_nonneg.2 hleft.le)
      exact ⟨hlow, hhigh.trans (sub_le_self _ (abs_nonneg _))⟩
    · exact ⟨le_rfl, hamount⟩
    · exact ih hrest hamount

theorem remaining_absorb (hprices : ∀ b ∈ buys, 0 < b.price) {amount : α} (hamount : 0 ≤ amount) :
    (absorb amount buys).1 = max (amount - dollars buys) 0 := by
  induction buys generalizing amount with
  | nil =>
    rw [dollars_nil, sub_zero]
    exact (max_eq_left hamount).symm
  | cons buy rest ih =>
    obtain ⟨hbuy, hrest⟩ := List.forall_mem_cons.1 hbuys
    obtain ⟨hprice, hprices⟩ := List.forall_mem_cons.1 hprices
    have hworth := dollars_nonneg hrest hprices
    have hhead := mul_nonneg hbuy hprice.le
    rw [absorb_cons, if_pos hprice, dollars_cons]
    split_ifs with hstop hleft
    · rw [max_eq_right (by linarith)]
      exact le_antisymm hstop hamount
    · rw [amount_buy hbuy hprice] at hleft ⊢
      rw [ih hrest hprices (sub_nonneg.2 hleft.le), sub_sub]
    · rw [amount_buy hbuy hprice, not_lt] at hleft
      rw [max_eq_right (by linarith)]

end

/-! ### Taking small sells out of buys -/

theorem smallDollars_nonneg (threshold : α) (sells : List (Trade α)) :
    0 ≤ smallDollars threshold sells := by
  refine List.sum_nonneg fun x hx => ?_
  obtain ⟨s, _, rfl⟩ := List.mem_map.1 hx
  exact abs_nonneg _

theorem settles_relieved {sell : Trade α} (hq : sell.quantity ≤ 0)
    (hsmall : |sell.quantity| ≤ threshold) {remaining : α} (hlow : 0 ≤ remaining)
    (hhigh : remaining ≤ sell.amount) : Settles threshold sell (sell.relieved remaining) := by
  have hbounds : sell.quantity ≤ (sell.relieved remaining).quantity ∧
      (sell.relieved remaining).quantity ≤ 0 := by
    rw [relieved]
    dsimp only
    split_ifs with hprice
    · rw [amount_sell hq hprice] at hhigh
      rw [le_div_iff₀ hprice, div_le_iff₀ hprice]
      constructor <;> linarith
    · exact ⟨hq, le_rfl⟩
  exact {
    symbol_eq := rfl
    price_eq := rfl
    buy := fun ha => by
      have ha : sell.quantity = 0 := le_antisymm hq ha
      rw [ha] at hbounds ⊢
      exact ⟨hbounds.1, hbounds.2⟩
    sell := fun _ => hbounds
    large := fun _ hlarge => absurd hsmall (not_le.2 hlarge) }

variable (threshold) in
theorem settlesAll_absorb {buys : List (Trade α)} (hbuys : ∀ b ∈ buys, 0 ≤ b.quantity)
    (amount : α) : SettlesAll threshold buys (sortByAmount (absorb amount buys).2) :=
  ⟨_, settles_absorb hbuys amount, (perm_sortByAmount _).symm⟩

section

variable {buys sells : List (Trade α)}

variable (threshold) in
theorem settlesAll_absorbSells (hbuys : ∀ b ∈ buys, 0 ≤ b.quantity)
    (hsells : ∀ s ∈ sells, s.quantity ≤ 0) :
    SettlesAll threshold buys (absorbSells threshold buys sells).1 ∧
      SettlesAll threshold sells (absorbSells threshold buys sells).2 := by
  induction sells generalizing buys with
  | nil => exact ⟨.of_perm (.refl _), .of_perm (.refl _)⟩
  | cons sell rest ih =>
    obtain ⟨hsell, hrest⟩ := List.forall_mem_cons.1 hsells
    by_cases hsmall : |sell.quantity| ≤ threshold
    · have habsorb := settlesAll_absorb threshold hbuys sell.amount
      obtain ⟨hb, hs⟩ := ih (nonneg_of_settlesAll habsorb hbuys) hrest
      obtain ⟨hlow, hhigh⟩ :=
        remaining_absorb_bounds hbuys (abs_nonneg (sell.quantity * sell.price))
      rw [absorbSells_cons_small hsmall]
      exact ⟨habsorb.trans hb, .cons (settles_relieved hsell hsmall hlow hhigh) hs⟩
    · obtain ⟨hb, hs⟩ := ih hbuys hrest
      rw [absorbSells_cons_large hsmall]
      exact ⟨hb, .cons (.refl sell) hs⟩

variable (threshold) in
theorem dollars_absorbSells_le (hbuys : ∀ b ∈ buys, 0 ≤ b.quantity) (sells : List (Trade α)) :
    dollars buys - dollars (absorbSells threshold buys sells).1 ≤ smallDollars threshold sells := by
  induction sells generalizing buys with
  | nil => simp [absorbSells, smallDollars]
  | cons sell rest ih =>
    by_cases hsmall : |sell.quantity| ≤ threshold
    · have habsorb := settlesAll_absorb threshold hbuys sell.amount
      have hrest := ih (nonneg_of_settlesAll habsorb hbuys)
      have hlow := (remaining_absorb_bounds hbuys (abs_nonneg (sell.quantity * sell.price))).1
      have hlost := dollars_absorb hbuys sell.amount
      rw [dollars_perm (perm_sortByAmount _)] at hrest
      rw [absorbSells_cons_small hsmall, smallDollars_cons_small hsmall]
      change 0 ≤ (absorb sell.amount buys).1 at hlow
      linarith
    · rw [absorbSells_cons_large hsmall, smallDollars_cons_large hsmall]
      exact ih hbuys

/-- One sell after the other takes what all of them together take. -/
theorem sub_remaining_add_min {amount rest worth left remaining : α} (hrest : 0 ≤ rest)
    (hremaining : remaining = max (amount - worth) 0) (hlost : left + amount = worth + remaining) :
    amount - remaining + min rest left = min (amount + rest) worth := by
  rcases le_total amount worth with hle | hle
  · rw [max_eq_right (sub_nonpos.2 hle)] at hremaining
    obtain rfl : left = worth - amount := by linarith
    rw [hremaining, sub_zero, ← min_add_add_left, add_sub_cancel]
  · rw [max_eq_left (sub_nonneg.2 hle)] at hremaining
    obtain rfl : left = 0 := by linarith
    rw [min_eq_right hrest, min_eq_right (by linarith)]
    linarith

variable (threshold) in
/-- **What the buys lose the small sells are relieved of**, and it is as much as both are worth. -/
theorem dollars_absorbSells (hbuys : ∀ b ∈ buys, 0 ≤ b.quantity) (hprices : ∀ b ∈ buys, 0 < b.price)
    (hsells : ∀ s ∈ sells, s.quantity ≤ 0) (hprices' : ∀ s ∈ sells, 0 < s.price) :
    dollars (absorbSells threshold buys sells).1 =
        dollars buys - min (smallDollars threshold sells) (dollars buys) ∧
      dollars (absorbSells threshold buys sells).2 =
        dollars sells + min (smallDollars threshold sells) (dollars buys) := by
  induction sells generalizing buys with
  | nil =>
    have hworth := dollars_nonneg hbuys hprices
    simp [absorbSells, smallDollars, hworth]
  | cons sell rest ih =>
    obtain ⟨hsell, hrest⟩ := List.forall_mem_cons.1 hsells
    obtain ⟨hprice, hprices'⟩ := List.forall_mem_cons.1 hprices'
    by_cases hsmall : |sell.quantity| ≤ threshold
    · have habsorb := settlesAll_absorb threshold hbuys sell.amount
      obtain ⟨hb, hs⟩ := ih (nonneg_of_settlesAll habsorb hbuys)
        (habsorb.forall_mem hprices fun _ _ hab ha => hab.price_eq ▸ ha) hrest hprices'
      have hamount : 0 ≤ sell.amount := abs_nonneg _
      have hremaining := remaining_absorb hbuys hprices hamount
      have hlost := dollars_absorb hbuys sell.amount
      have htaken := sub_remaining_add_min (smallDollars_nonneg threshold rest) hremaining hlost
      have hquantity : (sell.relieved (absorb sell.amount buys).1).quantity * sell.price =
          -(absorb sell.amount buys).1 := by
        rw [relieved, if_pos hprice, div_mul_cancel₀ _ hprice.ne']
      rw [dollars_perm (perm_sortByAmount _)] at hb hs
      rw [absorbSells_cons_small hsmall, smallDollars_cons_small hsmall, ← htaken]
      have hsold := amount_sell hsell hprice
      constructor
      · show dollars (absorbSells _ _ _).1 = _
        linarith
      · rw [dollars_cons, dollars_cons, hs]
        show _ * sell.price + _ = _
        linarith
    · obtain ⟨hb, hs⟩ := ih hbuys hprices hrest hprices'
      rw [absorbSells_cons_large hsmall, smallDollars_cons_large hsmall, dollars_cons, dollars_cons]
      exact ⟨hb, by rw [hs, add_assoc]⟩

end

end FactorPortfolio.Trade
