import FactorPortfolio.Proofs.Cache.Market
import Mathlib.Tactic.Common

/-!
# Which returns a volatility is taken over

The returns of a symbol are those between neighbouring prices inside its window of the batch, each
under the date of the later price.  A volatility is taken over the returns with dates from `start`
to `stop` (`inside`), if the returns of the batch's window are `Measurable` there.

* `annualizedStdev_eq_some_iff`: a volatility is there exactly if the returns are measurable, and
  then it depends on the returns within alone.
* `inside_returnsOf`: those are the returns of the prices from `start` to `stop`, with the last
  price before `start` in front of them if the batch's window has one.

So a price before `start` counts if and only if another request of the batch has widened the window
to it, and a price after `stop` can still be what makes the volatility measurable.
-/

namespace FactorPortfolio

variable {α : Type}

abbrev Dated (l : List (Date × α)) : Prop := l.Pairwise fun a b => a.1 < b.1

def inside (start stop : Date) (returns : List (Date × α)) : List (Date × α) :=
  returns.filter fun r => start ≤ r.1 && r.1 ≤ stop

/-- Enough returns lie within, and some within a week of both ends or beyond them. -/
structure Measurable (start stop : Date) (returns : List (Date × α)) : Prop where
  two : 2 ≤ (inside start stop returns).length
  early : ∃ r ∈ returns, r.1 ≤ start.ahead gapDays
  late : ∃ r ∈ returns, stop.back gapDays ≤ r.1

theorem Dated.head_le {r : Date × α} {l : List (Date × α)} (h : Dated (r :: l)) :
    ∀ x ∈ r :: l, r.1 ≤ x.1 := by
  intro x hx
  rcases List.mem_cons.1 hx with rfl | hx
  · exact Date.le_refl _
  · exact Date.le_of_lt ((List.pairwise_cons.1 h).1 x hx)

theorem Dated.le_getLast {l : List (Date × α)} {r : Date × α} (h : Dated l)
    (hr : l.getLast? = some r) : ∀ x ∈ l, x.1 ≤ r.1 := by
  obtain ⟨l', rfl⟩ := List.getLast?_eq_some_iff.1 hr
  intro x hx
  rcases List.mem_append.1 hx with hx | hx
  · exact Date.le_of_lt ((List.pairwise_append.1 h).2.2 x hx r List.mem_cons_self)
  · rw [List.mem_singleton.1 hx]
    exact Date.le_refl _

theorem early_iff (start : Date) {first : Date × α} {rest : List (Date × α)}
    (h : Dated (first :: rest)) : (∃ r ∈ first :: rest, r.1 ≤ start.ahead gapDays) ↔
      ¬ start.ahead gapDays < first.1 := by
  rw [Date.not_lt]
  exact ⟨fun ⟨r, hr, hle⟩ => Date.le_trans (h.head_le r hr) hle,
    fun hle => ⟨first, List.mem_cons_self, hle⟩⟩

theorem late_iff (stop : Date) {returns : List (Date × α)} {last : Date × α} (h : Dated returns)
    (hlast : returns.getLast? = some last) :
    (∃ r ∈ returns, stop.back gapDays ≤ r.1) ↔ ¬ last.1 < stop.back gapDays := by
  rw [Date.not_lt]
  exact ⟨fun ⟨r, hr, hle⟩ => Date.le_trans hle (h.le_getLast hlast r hr),
    fun hle => ⟨last, List.mem_of_getLast? hlast, hle⟩⟩

theorem Dated.filter_append {l : List (Date × α)} (h : Dated l) {p : Date → Bool}
    (hp : ∀ d d', d < d' → p d' = true → p d = true) :
    l.filter (fun x => p x.1) ++ l.filter (fun x => !p x.1) = l := by
  induction l with
  | nil => rfl
  | cons a rest ih =>
    obtain ⟨ha, hrest⟩ := List.pairwise_cons.1 h
    cases hpa : p a.1 with
    | true =>
      simp only [List.filter_cons, hpa, if_true, Bool.not_true, Bool.false_eq_true, if_false,
        List.cons_append, ih hrest]
    | false =>
      have hlate : ∀ x ∈ a :: rest, p x.1 = false := by
        intro x hx
        rcases List.mem_cons.1 hx with rfl | hx
        · exact hpa
        · apply Bool.eq_false_iff.2
          intro hpx
          rw [hp a.1 x.1 (ha x hx) hpx] at hpa
          cases hpa
      rw [List.filter_eq_nil_iff.2 fun x hx => by simp [hlate x hx],
        List.filter_eq_self.2 fun x hx => by simp [hlate x hx], List.nil_append]

variable [Scalar α]

theorem sampleStdev?_eq_some_iff {xs : List α} {x : α} : Scalar.sampleStdev? xs = some x ↔
    2 ≤ xs.length ∧ x = Scalar.sqrt (Scalar.sampleVariance xs) := by
  rw [Scalar.sampleStdev?]
  split
  · rename_i h
    exact ⟨nofun, fun h' => absurd h'.1 (by omega)⟩
  · rename_i h
    rw [Option.some.injEq]
    exact ⟨fun h' => ⟨by omega, h'.symm⟩, fun h' => h'.2.symm⟩

/-- **A volatility is there exactly if the returns are measurable.** -/
theorem annualizedStdev_eq_some_iff {start stop : Date} {returns : List (Date × α)}
    (h : Dated returns) {x : α} : annualizedStdev returns start stop = some x ↔
      Measurable start stop returns ∧
        x = Scalar.sqrt (Scalar.sampleVariance ((inside start stop returns).map Prod.snd)) *
          Scalar.sqrt tradingDaysPerYear := by
  cases returns with
  | nil => exact ⟨nofun, fun hx => absurd hx.1.two (by simp [inside])⟩
  | cons first rest =>
    obtain ⟨last, hlast⟩ : ∃ last, (first :: rest).getLast? = some last :=
      ⟨_, List.getLast?_eq_some_getLast (List.cons_ne_nil first rest)⟩
    have hearly := early_iff start h
    have hlate := late_iff stop h hlast
    have hdef : annualizedStdev (first :: rest) start stop =
        if start.ahead gapDays < first.1 || last.1 < stop.back gapDays then none
        else (Scalar.sampleStdev? ((inside start stop (first :: rest)).map Prod.snd)).bind
          fun s => some (s * Scalar.sqrt tradingDaysPerYear) := by
      rw [annualizedStdev, List.head?_cons, hlast]
      rfl
    rw [hdef]
    by_cases hends : start.ahead gapDays < first.1 ∨ last.1 < stop.back gapDays
    · rw [if_pos (by simpa using hends)]
      refine ⟨nofun, fun hx => ?_⟩
      rcases hends with hends | hends
      · exact absurd hends (hearly.1 hx.1.early)
      · exact absurd hends (hlate.1 hx.1.late)
    · rw [if_neg (by simpa using hends), Option.bind_eq_some_iff]
      obtain ⟨hfirst, hlast⟩ := not_or.1 hends
      constructor
      · rintro ⟨y, hy, hx⟩
        obtain ⟨htwo, rfl⟩ := sampleStdev?_eq_some_iff.1 hy
        rw [List.length_map] at htwo
        exact ⟨⟨htwo, hearly.2 hfirst, hlate.2 hlast⟩, (Option.some.inj hx).symm⟩
      · rintro ⟨hm, rfl⟩
        exact ⟨_, sampleStdev?_eq_some_iff.2 ⟨by rw [List.length_map]; exact hm.two, rfl⟩, rfl⟩

theorem annualizedStdev_congr {start stop : Date} {returns returns' : List (Date × α)}
    (h : Dated returns) (h' : Dated returns')
    (hmeasurable : Measurable start stop returns ↔ Measurable start stop returns')
    (hinside : Measurable start stop returns → Measurable start stop returns' →
      inside start stop returns = inside start stop returns') :
    annualizedStdev returns start stop = annualizedStdev returns' start stop := by
  apply Option.ext
  intro x
  rw [annualizedStdev_eq_some_iff h, annualizedStdev_eq_some_iff h']
  constructor
  · rintro ⟨hm, hx⟩
    have hm' := hmeasurable.1 hm
    exact ⟨hm', by rw [hx, hinside hm hm']⟩
  · rintro ⟨hm', hx⟩
    have hm := hmeasurable.2 hm'
    exact ⟨hm, by rw [hx, hinside hm hm']⟩

/-! ### The returns of prices -/

theorem dates_returnsOf (prices : List (Date × α)) :
    (returnsOf prices).map Prod.fst = prices.tail.map Prod.fst := by
  induction prices with
  | nil => rfl
  | cons p rest ih =>
    cases rest with
    | nil => rfl
    | cons p' rest => rw [returnsOf, List.map_cons, ih]; rfl

theorem exists_price {prices : List (Date × α)} {r : Date × α} (h : r ∈ returnsOf prices) :
    ∃ p ∈ prices.tail, p.1 = r.1 := by
  have hmem : r.1 ∈ prices.tail.map Prod.fst :=
    dates_returnsOf prices ▸ List.mem_map_of_mem h
  exact List.mem_map.1 hmem

theorem exists_return {prices : List (Date × α)} (h : Dated prices) {p q : Date × α}
    (hp : p ∈ prices) (hq : q ∈ prices) (hlt : q.1 < p.1) : ∃ r ∈ returnsOf prices, r.1 = p.1 := by
  have htail : p ∈ prices.tail := by
    cases prices with
    | nil => cases hp
    | cons first rest =>
      rcases List.mem_cons.1 hp with rfl | hp
      · exact absurd hlt (Date.not_lt.2 (h.head_le q hq))
      · exact hp
  have hmem : p.1 ∈ (returnsOf prices).map Prod.fst :=
    dates_returnsOf prices ▸ List.mem_map_of_mem htail
  exact List.mem_map.1 hmem

theorem dated_returnsOf {prices : List (Date × α)} (h : Dated prices) :
    Dated (returnsOf prices) := by
  have htail : (prices.tail.map Prod.fst).Pairwise (· < ·) :=
    List.pairwise_map.2 (h.sublist (List.tail_sublist prices))
  rw [← dates_returnsOf] at htail
  exact List.pairwise_map.1 htail

theorem inside_returnsOf_append {start stop : Date} (prices : List (Date × α))
    {later : List (Date × α)} (hlater : ∀ p ∈ later, stop < p.1) :
    inside start stop (returnsOf (prices ++ later)) = inside start stop (returnsOf prices) := by
  have hdrop : ∀ l : List (Date × α), (∀ p ∈ l.tail, stop < p.1) →
      inside start stop (returnsOf l) = [] := by
    intro l hl
    apply List.filter_eq_nil_iff.2
    intro r hr
    obtain ⟨p, hp, heq⟩ := exists_price hr
    have := hl p hp
    rw [heq] at this
    simp [Date.not_le.2 this]
  induction prices with
  | nil => rw [List.nil_append, hdrop later fun p hp => hlater p (List.mem_of_mem_tail hp)]; rfl
  | cons p rest ih =>
    cases rest with
    | nil =>
      rw [List.singleton_append, hdrop (p :: later) hlater]
      rfl
    | cons p' rest =>
      show inside start stop (_ :: returnsOf (p' :: rest ++ later)) =
        inside start stop (_ :: returnsOf (p' :: rest))
      rw [inside, inside, List.filter_cons, List.filter_cons]
      rw [inside, inside] at ih
      rw [ih]

theorem inside_returnsOf_before {start stop : Date} {before : List (Date × α)}
    (hbefore : ∀ p ∈ before, p.1 < start) (prices : List (Date × α)) :
    inside start stop (returnsOf (before ++ prices)) =
      inside start stop (returnsOf (before.getLast?.toList ++ prices)) := by
  induction before with
  | nil => rfl
  | cons p rest ih =>
    cases rest with
    | nil => rfl
    | cons p' rest =>
      have hp' : ¬ start ≤ p'.1 := Date.not_le.2 (hbefore p' (by simp))
      have hstep : inside start stop (returnsOf (p :: p' :: rest ++ prices)) =
          inside start stop (returnsOf (p' :: rest ++ prices)) := by
        show inside start stop (_ :: returnsOf (p' :: rest ++ prices)) = _
        rw [inside, List.filter_cons, if_neg (by simp [hp'])]
        rfl
      rw [hstep, ih fun q hq => hbefore q (List.mem_cons_of_mem p hq), List.getLast?_cons_cons]

theorem length_returnsOf (prices : List (Date × α)) :
    (returnsOf prices).length = prices.length - 1 := by
  have h := congrArg List.length (dates_returnsOf prices)
  rwa [List.length_map, List.length_map, List.length_tail] at h

theorem inside_returnsOf_eq_self {start stop : Date} (first : Option (Date × α))
    {prices : List (Date × α)} (h : ∀ p ∈ prices, start ≤ p.1 ∧ p.1 ≤ stop) :
    inside start stop (returnsOf (first.toList ++ prices)) =
      returnsOf (first.toList ++ prices) := by
  apply List.filter_eq_self.2
  intro r hr
  obtain ⟨p, hp, heq⟩ := exists_price hr
  have hp : p ∈ prices := by
    cases first with
    | none => exact List.mem_of_mem_tail hp
    | some f => exact hp
  rw [← heq]
  simpa using h p hp

/-! ### The prices that count -/

namespace Series

variable (s : Series α) {low high low' high' start stop : Date}

/-- The last price before `start` that the window from `low` on holds. -/
def lastBefore (low start : Date) : Option (Date × α) :=
  ((Table.entries s).filter fun p => low ≤ p.1 && p.1 < start).getLast?

/-- The window from `low` on holds a price before `start`. -/
def Enters (low start : Date) : Prop :=
  ∃ date x, low ≤ date ∧ date < start ∧ Table.get? s date = some x

omit [Scalar α] in
theorem not_enters_self (start : Date) : ¬ s.Enters start start := by
  rintro ⟨date, _, hlow, hstart, _⟩
  exact Date.not_le.2 hstart hlow

omit [Scalar α] in
theorem entries_between (low high : Date) : (Table.between s low high).entries =
    (Table.entries s).filter fun p => low ≤ p.1 && p.1 ≤ high := by
  apply List.filter_congr
  intro p _
  rw [Bool.eq_iff_iff]
  simp only [Bool.and_eq_true, Date.isLE_compare, decide_eq_true_eq]

omit [Scalar α] in
theorem dated_entries : Dated (Table.entries s) := (Table.ascending s).imp Date.compare_eq_lt.1

/-- **The returns inside are those of the prices inside**, with the last price before `start` in
front of them where the window holds one. -/
theorem inside_returnsOf (hlow : low ≤ start) (hstop : stop ≤ high) (hle : start ≤ stop) :
    inside start stop (returnsOf (Table.between s low high).entries) =
      returnsOf ((s.lastBefore low start).toList ++ (Table.between s start stop).entries) := by
  have hbetween : Dated (Table.between s low high).entries := dated_entries _
  have hfrom : Dated ((Table.between s low high).entries.filter fun p => !decide (p.1 < start)) :=
    List.Pairwise.filter _ hbetween
  have hbefore := hbetween.filter_append (p := fun d => d < start) fun d d' hd h =>
    decide_eq_true (Int.lt_trans hd (of_decide_eq_true h))
  have hafter := hfrom.filter_append (p := fun d => d ≤ stop) fun d d' hd h =>
    decide_eq_true (Date.le_trans (Date.le_of_lt hd) (of_decide_eq_true h))
  have hlast : ((Table.between s low high).entries.filter fun p => decide (p.1 < start)).getLast? =
      s.lastBefore low start := by
    rw [entries_between, List.filter_filter, lastBefore]
    refine congrArg List.getLast? (List.filter_congr fun p _ => ?_)
    rw [Bool.eq_iff_iff]
    simp only [Bool.and_eq_true, decide_eq_true_eq]
    have hhigh : p.1 < start → p.1 ≤ high := fun h =>
      Date.le_trans (Date.le_of_lt h) (Date.le_trans hle hstop)
    tauto
  have hmiddle : ((Table.between s low high).entries.filter fun p => !decide (p.1 < start)).filter
      (fun p => decide (p.1 ≤ stop)) = (Table.between s start stop).entries := by
    rw [entries_between, entries_between, List.filter_filter, List.filter_filter]
    apply List.filter_congr
    intro p _
    rw [Bool.eq_iff_iff]
    simp only [Bool.and_eq_true, Bool.not_eq_true', decide_eq_true_eq, decide_eq_false_iff_not,
      Date.not_lt]
    have hlow' : start ≤ p.1 → low ≤ p.1 := Date.le_trans hlow
    have hhigh : p.1 ≤ stop → p.1 ≤ high := fun h => Date.le_trans h hstop
    tauto
  have hlate : ∀ p ∈ ((Table.between s low high).entries.filter fun p =>
      !decide (p.1 < start)).filter (fun p => !decide (p.1 ≤ stop)), stop < p.1 := by
    intro p hp
    simpa [Date.not_le] using (List.mem_filter.1 hp).2
  calc inside start stop (returnsOf (Table.between s low high).entries)
      = inside start stop (returnsOf ((s.lastBefore low start).toList ++
          (Table.between s low high).entries.filter fun p => !decide (p.1 < start))) := by
        rw [← hlast, ← inside_returnsOf_before (by simp), hbefore]
    _ = inside start stop (returnsOf ((s.lastBefore low start).toList ++
          (Table.between s start stop).entries)) := by
        rw [← hafter, ← List.append_assoc, inside_returnsOf_append _ hlate, hmiddle]
    _ = returnsOf ((s.lastBefore low start).toList ++ (Table.between s start stop).entries) :=
        inside_returnsOf_eq_self _ fun p hp => ((mem_between s).1 hp).2

omit [Scalar α] in
theorem lastBefore_spec {p : Date × α} (h : s.lastBefore low start = some p) :
    p ∈ Table.entries s ∧ low ≤ p.1 ∧ p.1 < start ∧
      ∀ p' ∈ Table.entries s, low ≤ p'.1 → p'.1 < start → p'.1 ≤ p.1 := by
  have hmem := List.mem_filter.1 (List.mem_of_getLast? h)
  simp only [Bool.and_eq_true, decide_eq_true_eq] at hmem
  refine ⟨hmem.1, hmem.2.1, hmem.2.2, fun p' hp' hlow hstart => ?_⟩
  have hdated : Dated ((Table.entries s).filter fun p => low ≤ p.1 && p.1 < start) :=
    List.Pairwise.filter _ (dated_entries s)
  refine hdated.le_getLast h p' (List.mem_filter.2 ⟨hp', ?_⟩)
  simp [hlow, hstart]

omit [Scalar α] in
theorem lastBefore_isSome_iff : (s.lastBefore low start).isSome = true ↔ s.Enters low start := by
  rw [lastBefore, List.getLast?_isSome, Enters]
  constructor
  · intro h
    obtain ⟨p, hp⟩ := List.exists_mem_of_ne_nil _ h
    obtain ⟨hentry, hdate⟩ := List.mem_filter.1 hp
    simp only [Bool.and_eq_true, decide_eq_true_eq] at hdate
    exact ⟨p.1, p.2, hdate.1, hdate.2, Table.get?_eq_some_iff.2 hentry⟩
  · rintro ⟨date, x, hlow, hstart, hx⟩
    refine List.ne_nil_of_mem (a := (date, x)) (List.mem_filter.2
      ⟨Table.get?_eq_some_iff.1 hx, ?_⟩)
    simp [hlow, hstart]

omit [Scalar α] in
theorem lastBefore_eq (h : s.Enters low start ↔ s.Enters low' start) :
    s.lastBefore low start = s.lastBefore low' start := by
  rw [← lastBefore_isSome_iff, ← lastBefore_isSome_iff] at h
  cases hp : s.lastBefore low start with
  | none =>
    cases hp' : s.lastBefore low' start with
    | none => rfl
    | some p' => simp [hp, hp'] at h
  | some p =>
    cases hp' : s.lastBefore low' start with
    | none => simp [hp, hp'] at h
    | some p' =>
      obtain ⟨hmem, hlow, hstart, hmax⟩ := s.lastBefore_spec hp
      obtain ⟨hmem', hlow', hstart', hmax'⟩ := s.lastBefore_spec hp'
      have hdate : p.1 = p'.1 := by
        -- the later of the two lies in both windows
        rcases Int.le_total p.1.day p'.1.day with hle | hle
        · exact Date.le_antisymm hle (hmax p' hmem' (Date.le_trans hlow hle) hstart')
        · exact Date.le_antisymm (hmax' p hmem (Date.le_trans hlow' hle) hstart) hle
      have hx := Table.get?_eq_some_iff.2 hmem
      have hx' := Table.get?_eq_some_iff.2 hmem'
      rw [hdate, hx'] at hx
      exact congrArg some (Prod.ext hdate (Option.some.inj hx).symm)

/-- **Two windows bring the same returns inside exactly if both hold a price before `start` or
neither does.** -/
theorem inside_eq_iff (hlow : low ≤ start) (hlow' : low' ≤ start) (hstop : stop ≤ high)
    (hstop' : stop ≤ high')
    (hne : inside start stop (returnsOf (Table.between s low high).entries) ≠ []) :
    inside start stop (returnsOf (Table.between s low high).entries) =
      inside start stop (returnsOf (Table.between s low' high').entries) ↔
        (s.Enters low start ↔ s.Enters low' start) := by
  have hle : start ≤ stop := by
    obtain ⟨r, hr⟩ := List.exists_mem_of_ne_nil _ hne
    have hdate := (List.mem_filter.1 hr).2
    simp only [Bool.and_eq_true, decide_eq_true_eq] at hdate
    exact Date.le_trans hdate.1 hdate.2
  rw [inside_returnsOf s hlow hstop hle] at hne ⊢
  rw [inside_returnsOf s hlow' hstop' hle]
  constructor
  · intro heq
    have hlength := congrArg List.length heq
    have hpos := List.length_pos_iff.2 hne
    rw [length_returnsOf] at hpos
    rw [length_returnsOf, length_returnsOf, List.length_append, List.length_append] at hlength
    rw [List.length_append] at hpos
    have hcount : (s.lastBefore low start).toList.length =
        (s.lastBefore low' start).toList.length := by omega
    rw [← lastBefore_isSome_iff, ← lastBefore_isSome_iff]
    revert hcount
    cases s.lastBefore low start <;> cases s.lastBefore low' start <;> simp
  · intro h
    rw [s.lastBefore_eq h]

/-! ### What is known up to a day -/

variable {s} {s' : Series α} {d : Date}

theorem inside_congr_upTo (h : Table.upTo s d = Table.upTo s' d) (hstop : stop ≤ d)
    (start low high : Date) :
    inside start stop (returnsOf (Table.between s low high).entries) =
      inside start stop (returnsOf (Table.between s' low high).entries) := by
  have known : ∀ s : Series α, inside start stop (returnsOf (Table.between s low high).entries) =
      inside start stop (returnsOf ((Table.upTo s d).entries.filter fun p =>
        (low ≤ p.1 && p.1 ≤ high) && p.1 ≤ stop)) := by
    intro s
    have hsplit := (dated_entries (Table.between s low high)).filter_append
      (p := fun d => d ≤ stop) fun d d' hd h =>
        decide_eq_true (Date.le_trans (Date.le_of_lt hd) (of_decide_eq_true h))
    have hknown : (Table.between s low high).entries.filter (fun p => decide (p.1 ≤ stop)) =
        (Table.upTo s d).entries.filter fun p => (low ≤ p.1 && p.1 ≤ high) && p.1 ≤ stop := by
      rw [entries_between, List.filter_filter]
      show _ = List.filter _ (List.filter _ _)
      rw [List.filter_filter]
      apply List.filter_congr
      intro p _
      rw [Bool.eq_iff_iff]
      simp only [Bool.and_eq_true, decide_eq_true_eq, Date.isLE_compare]
      have hd : p.1 ≤ stop → p.1 ≤ d := fun h => Date.le_trans h hstop
      tauto
    rw [← hknown]
    conv_lhs => rw [← hsplit]
    refine inside_returnsOf_append _ ?_
    intro p hp
    simpa [Date.not_le] using (List.mem_filter.1 hp).2
  rw [known s, known s', h]

/-- Returns of enough prices reach the last week of a window once there is a price in it or after
it. -/
theorem exists_late_iff (hlow : low ≤ start)
    (htwo : 2 ≤ (inside start stop (returnsOf (Table.between s low high).entries)).length) :
    (∃ r ∈ returnsOf (Table.between s low high).entries, stop.back gapDays ≤ r.1) ↔
      ∃ date x, Table.get? s date = some x ∧ stop.back gapDays ≤ date ∧ date ≤ high := by
  constructor
  · rintro ⟨r, hr, hlate⟩
    obtain ⟨p, hp, heq⟩ := exists_price hr
    obtain ⟨hentry, _, hp⟩ := (mem_between s).1 (List.mem_of_mem_tail hp)
    exact ⟨p.1, p.2, Table.get?_eq_some_iff.2 hentry, heq ▸ hlate, hp⟩
  · rintro ⟨date, x, hx, hlate, hdate⟩
    obtain ⟨r, hr⟩ := List.exists_mem_of_length_pos (Nat.lt_of_lt_of_le Nat.zero_lt_two htwo)
    obtain ⟨hmem, hinside⟩ := List.mem_filter.1 hr
    simp only [Bool.and_eq_true, decide_eq_true_eq] at hinside
    by_cases hlt : r.1 < date
    · -- the price comes after another one, so that it has a return
      obtain ⟨p, hp, heq⟩ := exists_price hmem
      have hentry : (date, x) ∈ (Table.between s low high).entries :=
        (mem_between s).2 ⟨Table.get?_eq_some_iff.1 hx,
          Date.le_trans hlow (Date.le_trans hinside.1 (Date.le_of_lt hlt)), hdate⟩
      obtain ⟨r', hr', hdate'⟩ := exists_return (dated_entries _) hentry
        (List.mem_of_mem_tail hp) (by rw [heq]; exact hlt)
      exact ⟨r', hr', by rw [hdate']; exact hlate⟩
    · exact ⟨r, hmem, Date.le_trans hlate (Date.not_lt.1 hlt)⟩

/-- A price of the last week of a window settles whether there is a volatility, whatever is stored
after the window. -/
theorem measurable_of_recent (h : Table.upTo s d = Table.upTo s' d) (hstop : stop ≤ d)
    (hlow : low ≤ start) (hhigh : stop ≤ high) {date : Date} {x : α}
    (hx : Table.get? s date = some x) (hrecent : stop.back gapDays ≤ date) (hdate : date ≤ stop)
    (hm : Measurable start stop (returnsOf (Table.between s low high).entries)) :
    Measurable start stop (returnsOf (Table.between s' low high).entries) := by
  have hinside := fun start => inside_congr_upTo h hstop start low high
  have htwo := hm.two
  rw [hinside] at htwo
  refine ⟨htwo, ?_, (exists_late_iff hlow htwo).2 ⟨date, x, ?_, hrecent,
    Date.le_trans hdate hhigh⟩⟩
  · obtain ⟨r, hr, hearly⟩ := hm.early
    by_cases hle : r.1 ≤ stop
    · have hr' : r ∈ inside r.1 stop (returnsOf (Table.between s low high).entries) :=
        List.mem_filter.2 ⟨hr, by simp [hle]⟩
      rw [hinside] at hr'
      exact ⟨r, (List.mem_filter.1 hr').1, hearly⟩
    · -- every return inside is earlier than this one
      obtain ⟨r₀, hr₀⟩ :=
        List.exists_mem_of_length_pos (Nat.lt_of_lt_of_le Nat.zero_lt_two htwo)
      obtain ⟨hmem₀, hdates₀⟩ := List.mem_filter.1 hr₀
      simp only [Bool.and_eq_true, decide_eq_true_eq] at hdates₀
      exact ⟨r₀, hmem₀, Date.le_trans hdates₀.2
        (Date.le_trans (Date.le_of_lt (Date.not_le.1 hle)) hearly)⟩
  · have hup := congrArg (fun t => Table.get? t date) h
    simp only [get?_upTo, Date.le_trans hdate hstop, if_true] at hup
    rw [← hup, hx]

end Series

/-! ### The volatilities of a batch -/

namespace Market

variable {m m' : Market α} {windows : Table Symbol DateWindow} {symbol : Symbol} {w : DateWindow}
  {start stop d : Date}

theorem dated_returns (m : Market α) (symbol : Symbol) (w : DateWindow) :
    Dated (m.returns symbol w) := dated_returnsOf (Series.dated_entries _)

theorem volatility_eq (m : Market α) (hw : windows.get? symbol = some w) (start stop : Date) :
    m.volatility windows symbol start stop = annualizedStdev (m.returns symbol w) start stop := by
  rw [volatility, hw, Option.bind_some]

theorem isSome_volatility_iff (hw : windows.get? symbol = some w) :
    (m.volatility windows symbol start stop).isSome = true ↔
      Measurable start stop (m.returns symbol w) := by
  rw [m.volatility_eq hw, Option.isSome_iff_exists]
  simp only [annualizedStdev_eq_some_iff (m.dated_returns symbol w), exists_and_left, exists_eq,
    and_true]

/-- Markets that are alike up to a day have the same volatilities up to that day, where both have
one. -/
theorem volatility_eq_of_isSome (h : m.upTo d = m'.upTo d) (hstop : stop ≤ d)
    (hsome : (m.volatility windows symbol start stop).isSome =
      (m'.volatility windows symbol start stop).isSome) :
    m.volatility windows symbol start stop = m'.volatility windows symbol start stop := by
  cases hw : windows.get? symbol with
  | none => rw [volatility, volatility, hw, Option.bind_none, Option.bind_none]
  | some w =>
    have hprices : (m.prices symbol).upTo d = (m'.prices symbol).upTo d :=
      congrFun (congrArg Market.prices h) symbol
    have hmeasurable : Measurable start stop (m.returns symbol w) ↔
        Measurable start stop (m'.returns symbol w) := by
      rw [← isSome_volatility_iff hw, ← isSome_volatility_iff hw, hsome]
    rw [m.volatility_eq hw, m'.volatility_eq hw]
    exact annualizedStdev_congr (m.dated_returns symbol w) (m'.dated_returns symbol w) hmeasurable
      fun _ _ => Series.inside_congr_upTo hprices hstop start w.1 w.2

/-- Where a price of its last week is stored, a window has a volatility in all markets that are
alike up to its end, or in none. -/
theorem isSome_volatility_of_recent (h : m.upTo d = m'.upTo d) (hstop : stop ≤ d)
    (hw : windows.get? symbol = some w) (hlow : w.1 ≤ start) (hhigh : stop ≤ w.2) {date : Date}
    {x : α} (hx : (m.prices symbol).get? date = some x) (hrecent : stop.back gapDays ≤ date)
    (hdate : date ≤ stop) : (m.volatility windows symbol start stop).isSome =
      (m'.volatility windows symbol start stop).isSome := by
  have hprices : (m.prices symbol).upTo d = (m'.prices symbol).upTo d :=
    congrFun (congrArg Market.prices h) symbol
  have hx' : (m'.prices symbol).get? date = some x := by
    have hup := congrArg (fun t => Table.get? t date) hprices
    simp only [Series.get?_upTo, Date.le_trans hdate hstop, if_true] at hup
    rw [← hup, hx]
  rw [Bool.eq_iff_iff, isSome_volatility_iff hw, isSome_volatility_iff hw]
  exact ⟨Series.measurable_of_recent hprices hstop hlow hhigh hx hrecent hdate,
    Series.measurable_of_recent hprices.symm hstop hlow hhigh hx' hrecent hdate⟩

end Market

end FactorPortfolio
