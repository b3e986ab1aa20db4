import Mathlib.Tactic.Linarith
import FactorPortfolio.Proofs.Trades.Absorb

/-!
# The netting law

Of trades of distinct symbols, each netted with its excess, a call of the filter leaves a large sell
as it is, and of any other trade some part.  `settled` is what is left of the trade of a symbol, be
it kept or carried.  With prices above zero, the dollars taken out of the buys are those that the
small sells are relieved of, as much as both are worth, so that netting moves no dollars in or out:
`netting_law`.
-/

namespace FactorPortfolio.Trade

variable {α : Type} [Field α] [LinearOrder α] [FloorRing α] [InexactFunctions α]

def netted (ledger : ExcessLedger α) (trades : List (Trade α)) : List (Trade α) :=
  trades.map (withExcess ledger)

def buysOf (trades : List (Trade α)) : List (Trade α) := trades.filter fun t => 0 < t.quantity

def sellsOf (trades : List (Trade α)) : List (Trade α) := trades.filter fun t => t.quantity ≤ 0

/-- What a call leaves of the trade of a symbol, be it kept or in the ledger. -/
def settled (out : List (Trade α) × ExcessLedger α) (s : Symbol) : α :=
  match out.1.find? fun t => t.symbol == s with
  | some t => t.quantity
  | none => out.2.quantity s

/-- What a call does to trades netted with their excess. -/
structure NettingLaw (threshold : α) (ledger : ExcessLedger α) (trades : List (Trade α))
    (out : List (Trade α) × ExcessLedger α) : Prop where
  large_sell : ∀ t ∈ netted ledger trades, t.quantity < -threshold →
    settled out t.symbol = t.quantity
  small_sell : ∀ t ∈ netted ledger trades, -threshold ≤ t.quantity → t.quantity ≤ 0 →
    t.quantity ≤ settled out t.symbol ∧ settled out t.symbol ≤ 0
  buy : ∀ t ∈ netted ledger trades, 0 < t.quantity →
    0 ≤ settled out t.symbol ∧ settled out t.symbol ≤ t.quantity
  /-- The dollars that the buys lose. -/
  taken : ((buysOf (netted ledger trades)).map fun t =>
      (t.quantity - settled out t.symbol) * t.price).sum =
    min (smallDollars threshold (sellsOf (netted ledger trades)))
      (dollars (buysOf (netted ledger trades)))
  /-- The dollars that the small sells are relieved of. -/
  relieved : (((sellsOf (netted ledger trades)).filter
      fun t => |t.quantity| ≤ threshold).map fun t =>
      (settled out t.symbol - t.quantity) * t.price).sum =
    min (smallDollars threshold (sellsOf (netted ledger trades)))
      (dollars (buysOf (netted ledger trades)))
  conserved : ((netted ledger trades).map fun t => settled out t.symbol * t.price).sum =
    dollars (netted ledger trades)
  untraded : ∀ s ∉ trades.map symbol, out.2.excess.get? s = ledger.excess.get? s

/-! ### What is left of a trade -/

variable {threshold : α} {ledger : ExcessLedger α} {trades : List (Trade α)}

theorem map_symbol_netted (ledger : ExcessLedger α) (trades : List (Trade α)) :
    (netted ledger trades).map symbol = trades.map symbol := by
  rw [netted, List.map_map]
  rfl

theorem price_pos_netted (ledger : ExcessLedger α) (hprices : ∀ t ∈ trades, 0 < t.price) :
    ∀ t ∈ netted ledger trades, 0 < t.price := by
  intro t ht
  obtain ⟨t', ht', rfl⟩ := List.mem_map.1 ht
  exact hprices t' ht'

theorem sellsOf_eq (trades : List (Trade α)) :
    sellsOf trades = trades.filter fun t => !decide ((0 : α) < t.quantity) :=
  List.filter_congr fun t _ => by simp [← not_lt]

theorem perm_buysOf_sellsOf (trades : List (Trade α)) :
    (buysOf trades ++ sellsOf trades).Perm trades := by
  rw [sellsOf_eq]
  exact List.filter_append_perm _ _

theorem mem_buysOf {t : Trade α} : t ∈ buysOf trades ↔ t ∈ trades ∧ 0 < t.quantity := by
  rw [buysOf, List.mem_filter, decide_eq_true_iff]

theorem mem_sellsOf {t : Trade α} : t ∈ sellsOf trades ↔ t ∈ trades ∧ t.quantity ≤ 0 := by
  rw [sellsOf, List.mem_filter, decide_eq_true_iff]

theorem nonneg_buysOf {t : Trade α} (ht : t ∈ buysOf trades) : 0 ≤ t.quantity :=
  (mem_buysOf.1 ht).2.le

theorem nonpos_sellsOf {t : Trade α} (ht : t ∈ sellsOf trades) : t.quantity ≤ 0 :=
  (mem_sellsOf.1 ht).2

/-- The buys, smallest amount first, after the small ones of the sells; and the sells. -/
def parted (threshold : α) (trades : List (Trade α)) : List (Trade α) × List (Trade α) :=
  absorbSells threshold (sortByAmount (buysOf trades)) (sellsOf trades)

section

variable (h : (trades.map symbol).Nodup)

include h

theorem settled_of_mem {t : Trade α} (ht : t ∈ adjusted threshold ledger trades) :
    settled (filterSmall threshold ledger trades) t.symbol = t.quantity := by
  rw [settled]
  by_cases hlarge : threshold < |t.quantity|
  · have hkept := mem_kept_iff.2 ⟨ht, hlarge⟩
    rw [(find?_symbol_eq_some_iff (nodup_symbols_kept h)).2 ⟨hkept, rfl⟩]
  · rw [find?_symbol_eq_none_iff.2 fun hkept => hlarge ((symbol_mem_kept_iff h ht).1 hkept),
      quantity_excess_of_mem h ht, if_neg hlarge]

theorem adjusted_eq : adjusted threshold ledger trades =
    (parted threshold (netted ledger trades)).1 ++ (parted threshold (netted ledger trades)).2 := by
  rw [adjusted, netAll_eq_map ledger h, parted, sellsOf_eq]
  simp only [Exact.zero_eq]
  rfl

end

theorem sum_sub_mul_price (f g : Trade α → α) (l : List (Trade α)) :
    (l.map fun t => (f t - g t) * t.price).sum =
      (l.map fun t => f t * t.price).sum - (l.map fun t => g t * t.price).sum := by
  induction l with
  | nil => simp
  | cons t l ih =>
    simp only [List.map_cons, List.sum_cons, ih]
    ring

theorem sum_map_filter {p : Trade α → Bool} {f : Trade α → α} {l : List (Trade α)}
    (h : ∀ t ∈ l, p t = false → f t = 0) : ((l.filter p).map f).sum = (l.map f).sum := by
  induction l with
  | nil => rfl
  | cons t l ih =>
    obtain ⟨ht, hl⟩ := List.forall_mem_cons.1 h
    cases hp : p t with
    | true => rw [List.filter_cons_of_pos hp, List.map_cons, List.sum_cons, ih hl, List.map_cons,
        List.sum_cons]
    | false => rw [List.filter_cons_of_neg (by simp [hp]), ih hl, List.map_cons, List.sum_cons,
        ht hp, zero_add]

/-- The excess goes into the dollars of the trades that it is netted with. -/
theorem dollars_netted (ledger : ExcessLedger α) (trades : List (Trade α)) :
    dollars (netted ledger trades) =
      dollars trades + (trades.map fun t => ledger.quantity t.symbol * t.price).sum := by
  simp only [netted, dollars, List.map_map, ← List.sum_map_add, ← add_mul]
  rfl

theorem isLarge_iff {t : Trade α} : isLarge threshold t = true ↔ threshold < |t.quantity| :=
  decide_eq_true_iff

variable (threshold ledger) in
theorem dollars_kept_add_carried (h : (trades.map symbol).Nodup) :
    dollars (filterSmall threshold ledger trades).1 +
        ((adjusted threshold ledger trades).map fun b =>
          (filterSmall threshold ledger trades).2.quantity b.symbol * b.price).sum =
      dollars (adjusted threshold ledger trades) := by
  have hkept : dollars (filterSmall threshold ledger trades).1 =
      dollars ((adjusted threshold ledger trades).filter (isLarge threshold)) := by
    rw [filterSmall_eq]
    exact dollars_perm (perm_sortBySymbol _)
  have hcarried : ((adjusted threshold ledger trades).map fun b =>
        (filterSmall threshold ledger trades).2.quantity b.symbol * b.price).sum =
      dollars ((adjusted threshold ledger trades).filter fun b => !isLarge threshold b) := by
    rw [dollars, ← sum_map_filter (p := fun b => !isLarge threshold b)]
    · refine congrArg List.sum (List.map_congr_left fun b hb => ?_)
      obtain ⟨hb, hsmall⟩ := List.mem_filter.1 hb
      have hnot : ¬ threshold < |b.quantity| := by
        rw [← isLarge_iff]
        simpa using hsmall
      rw [quantity_excess_of_mem h hb, if_neg hnot]
    · intro b hb hlarge
      rw [quantity_excess_of_mem h hb, if_pos (by simpa [isLarge_iff] using hlarge), zero_mul]
  rw [hkept, hcarried, ← dollars_append]
  exact dollars_perm (List.filter_append_perm _ _)

variable [IsStrictOrderedRing α]

theorem settlesAll_parted (threshold : α) (trades : List (Trade α)) :
    SettlesAll threshold (buysOf trades) (parted threshold trades).1 ∧
      SettlesAll threshold (sellsOf trades) (parted threshold trades).2 := by
  have hsorted := perm_sortByAmount (buysOf trades)
  obtain ⟨hbuys, hsells⟩ := settlesAll_absorbSells threshold
    (fun b hb => nonneg_buysOf (hsorted.mem_iff.1 hb))
    (fun s (hs : s ∈ sellsOf trades) => nonpos_sellsOf hs)
  exact ⟨(SettlesAll.of_perm hsorted.symm).trans hbuys, hsells⟩

/-- The buys lose what the small sells are relieved of, as much as both are worth. -/
theorem dollars_parted (threshold : α) (hprices : ∀ t ∈ trades, 0 < t.price) :
    dollars (parted threshold trades).1 = dollars (buysOf trades) -
        min (smallDollars threshold (sellsOf trades)) (dollars (buysOf trades)) ∧
      dollars (parted threshold trades).2 = dollars (sellsOf trades) +
        min (smallDollars threshold (sellsOf trades)) (dollars (buysOf trades)) := by
  have hsorted := perm_sortByAmount (buysOf trades)
  rw [← dollars_perm hsorted]
  exact dollars_absorbSells threshold
    (fun b hb => nonneg_buysOf (hsorted.mem_iff.1 hb))
    (fun b hb => hprices b (mem_buysOf.1 (hsorted.mem_iff.1 hb)).1)
    (fun s (hs : s ∈ sellsOf trades) => nonpos_sellsOf hs)
    (fun s hs => hprices s (mem_sellsOf.1 hs).1)

section

variable (h : (trades.map symbol).Nodup)

include h

/-- **Netting moves no dollars in or out.** -/
theorem dollars_adjusted (hprices : ∀ t ∈ trades, 0 < t.price) :
    dollars (adjusted threshold ledger trades) = dollars (netted ledger trades) := by
  obtain ⟨hbuys, hsells⟩ := dollars_parted threshold (price_pos_netted ledger hprices)
  have htotal := dollars_perm (perm_buysOf_sellsOf (netted ledger trades))
  rw [dollars_append] at htotal
  rw [adjusted_eq h, dollars_append, hbuys, hsells]
  linarith

theorem settlesAll_adjusted :
    SettlesAll threshold (netted ledger trades) (adjusted threshold ledger trades) := by
  obtain ⟨hbuys, hsells⟩ := settlesAll_parted threshold (netted ledger trades)
  rw [adjusted_eq h]
  exact (SettlesAll.of_perm (perm_buysOf_sellsOf _).symm).trans (hbuys.append hsells)

theorem exists_of_mem_kept {b : Trade α} (hb : b ∈ (filterSmall threshold ledger trades).1) :
    ∃ t ∈ trades, t.symbol = b.symbol ∧ t.price = b.price := by
  have hnetted : ∀ a ∈ netted ledger trades, ∃ t ∈ trades, t.symbol = a.symbol ∧
      t.price = a.price := by
    intro a ha
    obtain ⟨t, ht, rfl⟩ := List.mem_map.1 ha
    exact ⟨t, ht, rfl, rfl⟩
  refine (settlesAll_adjusted h).forall_mem hnetted ?_ b (mem_kept_iff.1 hb).1
  intro a b hab ha
  rwa [hab.symbol_eq, hab.price_eq]

variable (threshold) in
/-- **What is left of a trade** is one of the adjusted trades, which it settles to. -/
theorem exists_settled {t : Trade α} (ht : t ∈ netted ledger trades) :
    ∃ b ∈ adjusted threshold ledger trades, Settles threshold t b ∧
      settled (filterSmall threshold ledger trades) t.symbol = b.quantity := by
  obtain ⟨b, hb, hsettles⟩ := (settlesAll_adjusted h).exists_of_mem ht
  exact ⟨b, hb, hsettles, hsettles.symbol_eq ▸ settled_of_mem h hb⟩

variable (threshold ledger) in
theorem sum_settled_buys : ((buysOf (netted ledger trades)).map fun t =>
      settled (filterSmall threshold ledger trades) t.symbol * t.price).sum =
    dollars (parted threshold (netted ledger trades)).1 := by
  refine (settlesAll_parted threshold _).1.sum_eq_dollars fun b hb => settled_of_mem h ?_
  rw [adjusted_eq h]
  exact List.mem_append_left _ hb

variable (threshold ledger) in
theorem sum_settled_sells : ((sellsOf (netted ledger trades)).map fun t =>
      settled (filterSmall threshold ledger trades) t.symbol * t.price).sum =
    dollars (parted threshold (netted ledger trades)).2 := by
  refine (settlesAll_parted threshold _).2.sum_eq_dollars fun b hb => settled_of_mem h ?_
  rw [adjusted_eq h]
  exact List.mem_append_right _ hb

end

/-- **The filter moves no dollars in or out**: what it keeps of trades and what the ledger grows by
are worth what the trades were. -/
theorem dollars_filterSmall (h : (trades.map symbol).Nodup) (hprices : ∀ t ∈ trades, 0 < t.price) :
    dollars (filterSmall threshold ledger trades).1 + (trades.map fun t =>
        ((filterSmall threshold ledger trades).2.quantity t.symbol - ledger.quantity t.symbol) *
          t.price).sum = dollars trades := by
  have hkept := dollars_kept_add_carried threshold ledger h
  rw [dollars_adjusted h hprices, dollars_netted,
    ← (settlesAll_adjusted h).sum_mul_price] at hkept
  have hsymbols : ((netted ledger trades).map fun t =>
        (filterSmall threshold ledger trades).2.quantity t.symbol * t.price).sum =
      (trades.map fun t =>
        (filterSmall threshold ledger trades).2.quantity t.symbol * t.price).sum := by
    rw [netted, List.map_map]
    rfl
  rw [hsymbols] at hkept
  rw [sum_sub_mul_price, add_sub_assoc', sub_eq_iff_eq_add]
  exact hkept

/-- **The netting law.**  A large sell stays as it is, a small sell and a buy keep some part; what
is taken out of the buys is what the small sells are relieved of, as much as both are worth; and the
excess of other symbols stays as it is. -/
theorem netting_law (hthreshold : 0 ≤ threshold) (h : (trades.map symbol).Nodup)
    (hprices : ∀ t ∈ trades, 0 < t.price) :
    NettingLaw threshold ledger trades (filterSmall threshold ledger trades) := by
  have hpositive := price_pos_netted ledger hprices
  obtain ⟨hbuys, hsells⟩ := dollars_parted threshold hpositive
  have hleft := sum_settled_buys threshold ledger h
  have hleft' := sum_settled_sells threshold ledger h
  constructor
  case large_sell =>
    intro t ht hlarge
    obtain ⟨b, _, hsettles, hb⟩ := exists_settled threshold h ht
    have hsell : t.quantity ≤ 0 := by linarith
    rw [hb]
    exact hsettles.large hsell (by rw [abs_of_nonpos hsell]; linarith)
  case small_sell =>
    intro t ht _ hsell
    obtain ⟨b, _, hsettles, hb⟩ := exists_settled threshold h ht
    rw [hb]
    exact hsettles.sell hsell
  case buy =>
    intro t ht hbuy
    obtain ⟨b, _, hsettles, hb⟩ := exists_settled threshold h ht
    rw [hb]
    exact hsettles.buy hbuy.le
  case taken =>
    rw [sum_sub_mul_price Trade.quantity, hleft]
    rw [← dollars, hbuys, sub_sub_cancel]
  case relieved =>
    rw [sum_map_filter, sum_sub_mul_price _ Trade.quantity, hleft']
    · rw [← dollars, hsells, add_sub_cancel_left]
    · intro t ht hlarge
      obtain ⟨b, _, hsettles, hb⟩ :=
        exists_settled threshold h (mem_sellsOf.1 ht).1
      rw [hb, hsettles.large (nonpos_sellsOf ht) (by simpa using hlarge), sub_self, zero_mul]
  case conserved =>
    rw [(settlesAll_adjusted h).sum_eq_dollars fun b hb => settled_of_mem h hb,
      dollars_adjusted h hprices]
  case untraded => exact fun s hs => get?_excess_of_not_mem hs

def twoBuysOneSell : List (Trade ℚ) := [⟨"AAPL", 2.1, 1⟩, ⟨"GOOG", 2, 1⟩, ⟨"MSFT", -1.99, 1⟩]

def halfHeldBack : ExcessLedger ℚ := ExcessLedger.empty.carry "MSFT" 0.49

/-- A sell of a share and a half is taken out of the smaller buy, of which half a share is left. -/
theorem netting_law_twoBuysOneSell :
    settled (filterSmall 2 halfHeldBack twoBuysOneSell) "AAPL" = 2.1 ∧
    settled (filterSmall 2 halfHeldBack twoBuysOneSell) "GOOG" = 0.5 ∧
    settled (filterSmall 2 halfHeldBack twoBuysOneSell) "MSFT" = 0 ∧
    NettingLaw 2 halfHeldBack twoBuysOneSell (filterSmall 2 halfHeldBack twoBuysOneSell) := by
  have hprices : ∀ t ∈ twoBuysOneSell, 0 < t.price := by
    simp [twoBuysOneSell]
  refine ⟨by decide +kernel, by decide +kernel, by decide +kernel, ?_⟩
  exact netting_law (by norm_num) (by decide) hprices

end FactorPortfolio.Trade
