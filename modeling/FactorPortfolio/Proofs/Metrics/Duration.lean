import FactorPortfolio.Proofs.Metrics.Drawdown

/-!
# How long a series stays below a peak

A run is a stretch of consecutive values that are all below the highest value before them.  The
metrics count on at a value that is back at the peak without passing it, so they report the length
of the longest run only where that does not matter.  What they count in general are the values below
the peak in a stretch without a new one (`IsSpell`):

* `ends_concat`, `spell_concat`: the spells that a new value adds are those that end with it.
* `Tracked.next`: the two counts stay the greatest of all spells, and of those that end last.
* `IsRun.spell`: every run is a spell, and without values at the peak every spell is a run
  (`IsSpell.exists_run`).

`drawdown_duration_law` puts this together, and `counted_on_at_peak` is a series whose only runs are
of one value each while two are reported.
-/

namespace FactorPortfolio

namespace Metrics

section

variable {α : Type} [Scalar α]

def IsBelow (before : List α) (v : α) : Prop := ∃ w ∈ before, v < w

def IsAbove (before : List α) (v : α) : Prop := ∀ w ∈ before, w < v

instance (before : List α) (v : α) : Decidable (IsBelow before v) :=
  inferInstanceAs (Decidable (∃ w ∈ before, v < w))

instance (before : List α) (v : α) : Decidable (IsAbove before v) :=
  inferInstanceAs (Decidable (∀ w ∈ before, w < v))

/-- Consecutive values that are all below the highest value before them. -/
def IsRun (values run : List α) : Prop :=
  ∃ before after, values = before ++ run ++ after ∧ ∀ v ∈ run, IsBelow before v

/-- How many values of a stretch are below the highest value before it. -/
def countBelow (before stretch : List α) : Nat := stretch.countP fun v => decide (IsBelow before v)

/-- There are `n` values below the peak in some stretch without a new peak. -/
def IsSpell (values : List α) (n : Nat) : Prop :=
  ∃ before stretch after, values = before ++ stretch ++ after ∧
    (∀ v ∈ stretch, ¬ IsAbove before v) ∧ n = countBelow before stretch

/-- There are `n` values below the peak in some stretch without a new peak that ends last. -/
def EndsSpell (values : List α) (n : Nat) : Prop :=
  ∃ before stretch, values = before ++ stretch ∧
    (∀ v ∈ stretch, ¬ IsAbove before v) ∧ n = countBelow before stretch

/-- Every value is below the highest value before it or a new peak. -/
def NoneAtPeak (values : List α) : Prop :=
  ∀ i (hi : i < values.length),
    IsBelow (values.take i) values[i] ∨ IsAbove (values.take i) values[i]

variable {values before stretch run : List α} {d : Drawdown α} {p u v : α} {n : Nat}

/-! ### A value more -/

theorem EndsSpell.spell (h : EndsSpell values n) : IsSpell values n := by
  obtain ⟨before, stretch, rfl, hstretch, rfl⟩ := h
  exact ⟨before, stretch, [], by rw [List.append_nil], hstretch, rfl⟩

theorem ends_zero (values : List α) : EndsSpell values 0 :=
  ⟨values, [], by rw [List.append_nil], by simp, rfl⟩

theorem countBelow_concat : countBelow before (stretch ++ [u]) =
    countBelow before stretch + if IsBelow before u then 1 else 0 := by
  rw [countBelow, countBelow, List.countP_append, List.countP_singleton]
  simp only [decide_eq_true_eq]

theorem ends_concat : EndsSpell (values ++ [u]) n ↔ n = 0 ∨
    ∃ before stretch, values = before ++ stretch ∧
      (∀ v ∈ stretch, ¬ IsAbove before v) ∧ ¬ IsAbove before u ∧
      n = countBelow before (stretch ++ [u]) := by
  constructor
  · rintro ⟨before, stretch, heq, hstretch, rfl⟩
    rcases List.eq_nil_or_concat' stretch with rfl | ⟨stretch, w, rfl⟩
    · exact .inl rfl
    · rw [← List.append_assoc] at heq
      obtain ⟨rfl, hlast⟩ := List.append_inj' heq rfl
      obtain rfl := List.singleton_inj.1 hlast
      obtain ⟨hstretch, hu⟩ := List.forall_mem_append.1 hstretch
      exact .inr ⟨before, stretch, rfl, hstretch, hu u (List.mem_singleton_self u), rfl⟩
  · rintro (rfl | ⟨before, stretch, rfl, hstretch, hu, rfl⟩)
    · exact ends_zero _
    · exact ⟨before, stretch ++ [u], List.append_assoc .., List.forall_mem_append.2
        ⟨hstretch, List.forall_mem_singleton.2 hu⟩, rfl⟩

theorem spell_concat :
    IsSpell (values ++ [u]) n ↔ IsSpell values n ∨ EndsSpell (values ++ [u]) n := by
  constructor
  · rintro ⟨before, stretch, after, heq, hstretch, rfl⟩
    rcases List.eq_nil_or_concat' after with rfl | ⟨after, w, rfl⟩
    · rw [List.append_nil] at heq
      exact .inr ⟨before, stretch, heq, hstretch, rfl⟩
    · rw [← List.append_assoc] at heq
      obtain ⟨rfl, -⟩ := List.append_inj' heq rfl
      exact .inl ⟨before, stretch, after, rfl, hstretch, rfl⟩
  · rintro (⟨before, stretch, after, rfl, hstretch, rfl⟩ | h)
    · exact ⟨before, stretch, after ++ [u], List.append_assoc .., hstretch, rfl⟩
    · exact h.spell

/-! ### The counts of a whole series -/

/-- The highest value and the greatest counts of the values seen. -/
structure Tracked (values : List α) (d : Drawdown α) : Prop where
  peak : IsHighest values d.peak
  current : IsGreatest {n | EndsSpell values n} d.current
  longest : IsGreatest {n | IsSpell values n} d.longest

theorem IsRun.exists_start (h : IsRun values run) : ∃ i < values.length - run.length + 1,
    i + run.length ≤ values.length ∧
      ∀ v ∈ (values.drop i).take run.length, IsBelow (values.take i) v := by
  obtain ⟨before, after, rfl, hrun⟩ := h
  have hlength : (before ++ run ++ after).length = before.length + run.length + after.length := by
    rw [List.length_append, List.length_append]
  refine ⟨before.length, by omega, by omega, ?_⟩
  rw [List.append_assoc, List.drop_left, List.take_left, List.take_left]
  exact hrun

variable [NumericOrder α]

/-- Behind a stretch without a new peak, the peak of all values is that of those before it. -/
theorem below_above_iff (hpeak : IsHighest (before ++ stretch) p)
    (hstretch : ∀ v ∈ stretch, ¬ IsAbove before v)
    (hnumbers : ∀ w ∈ before ++ stretch, Scalar.isNaN w = false) (hu : Scalar.isNaN u = false) :
    (IsBelow before u ↔ u < p) ∧ (IsAbove before u ↔ p < u) := by
  obtain ⟨κ, _, place, hplace⟩ := NumericOrder.exists_place (α := α)
  have hp := hnumbers p hpeak.mem
  have hbefore : ∀ w ∈ before, Scalar.isNaN w = false :=
    fun w hw => hnumbers w (List.mem_append_left _ hw)
  have hle : ∀ w ∈ before, place w ≤ place p := fun w hw =>
    not_lt.1 ((hplace p w hp (hbefore w hw)).1.not.1 (hpeak.not_lt w (List.mem_append_left _ hw)))
  -- some value before the stretch is as high as the peak
  obtain ⟨q, hq, hpq⟩ : ∃ q ∈ before, place p ≤ place q := by
    rcases List.mem_append.1 hpeak.mem with hmem | hmem
    · exact ⟨p, hmem, le_rfl⟩
    · obtain ⟨q, hq, hqp⟩ : ∃ q ∈ before, ¬ q < p := by
        simpa [IsAbove] using hstretch p hmem
      exact ⟨q, hq, not_lt.1 ((hplace q p (hbefore q hq) hp).1.not.1 hqp)⟩
  constructor
  · rw [(hplace u p hu hp).1]
    constructor
    · rintro ⟨w, hw, huw⟩
      exact ((hplace u w hu (hbefore w hw)).1.1 huw).trans_le (hle w hw)
    · intro h
      exact ⟨q, hq, (hplace u q hu (hbefore q hq)).1.2 (h.trans_le hpq)⟩
  · rw [(hplace p u hp hu).1]
    constructor
    · intro h
      exact hpq.trans_lt ((hplace q u (hbefore q hq) hu).1.1 (h q hq))
    · intro h w hw
      exact (hplace w u (hbefore w hw) hu).1.2 ((hle w hw).trans_lt h)

theorem Tracked.current_next (h : Tracked values d) (hpos : ∀ w ∈ values, (0.0 : α) < w)
    (hnumbers : ∀ w ∈ values ++ [u], Scalar.isNaN w = false) :
    IsGreatest {n | EndsSpell (values ++ [u]) n} (d.next u).current := by
  obtain ⟨hnumbers, hu⟩ := List.forall_mem_append.1 hnumbers
  have hu := List.forall_mem_singleton.1 hu
  have hiff : ∀ before stretch, values = before ++ stretch →
      (∀ v ∈ stretch, ¬ IsAbove before v) →
      (IsBelow before u ↔ u < d.peak) ∧ (IsAbove before u ↔ d.peak < u) := by
    rintro before stretch rfl hstretch
    exact below_above_iff h.peak hstretch hnumbers hu
  -- where there is no new peak, the count goes on from the values before
  have hkeep (hle : ¬ d.peak < u) : IsGreatest {n | EndsSpell (values ++ [u]) n}
      (d.current + if u < d.peak then 1 else 0) := by
    constructor
    · obtain ⟨before, stretch, heq, hstretch, hcurrent⟩ := h.current.1
      obtain ⟨hbelow, habove⟩ := hiff before stretch heq hstretch
      refine ends_concat.2 (.inr ⟨before, stretch, heq, hstretch, habove.not.2 hle, ?_⟩)
      rw [countBelow_concat, hcurrent]
      simp only [hbelow]
    · intro n hn
      rcases ends_concat.1 hn with rfl | ⟨before, stretch, heq, hstretch, -, rfl⟩
      · exact Nat.zero_le _
      · obtain ⟨hbelow, -⟩ := hiff before stretch heq hstretch
        have hcount := h.current.2 ⟨before, stretch, heq, hstretch, rfl⟩
        rw [countBelow_concat]
        simp only [hbelow]
        exact Nat.add_le_add_right hcount _
  rcases d.next_cases u with ⟨hlt, heq⟩ | ⟨hle, ⟨-, hlt⟩, heq⟩ | ⟨hle, hnot, heq⟩
  · rw [heq]
    refine ⟨ends_zero _, fun n hn => ?_⟩
    rcases ends_concat.1 hn with rfl | ⟨before, stretch, heq, hstretch, hu, rfl⟩
    · exact le_rfl
    · exact absurd ((hiff before stretch heq hstretch).2.2 hlt) hu
  · have hgreatest := hkeep hle
    rw [if_pos hlt] at hgreatest
    rw [heq]
    exact hgreatest
  · have hgreatest := hkeep hle
    rw [if_neg fun hlt => hnot ⟨hpos _ h.peak.mem, hlt⟩] at hgreatest
    rw [heq]
    exact hgreatest

/-- **The counts stay the greatest.** -/
theorem Tracked.next (h : Tracked values d) (hpos : ∀ w ∈ values, (0.0 : α) < w)
    (hnumbers : ∀ w ∈ values ++ [u], Scalar.isNaN w = false) :
    Tracked (values ++ [u]) (d.next u) := by
  have hcurrent := h.current_next hpos hnumbers
  refine ⟨h.peak.next hnumbers, hcurrent, ?_⟩
  have hunion := h.longest.union hcurrent
  have hset : {n | IsSpell (values ++ [u]) n} =
      {n | IsSpell values n} ∪ {n | EndsSpell (values ++ [u]) n} :=
    Set.ext fun n => spell_concat
  rw [hset]
  have hlongest : (d.next u).longest = max d.longest (d.next u).current := by
    rcases d.next_cases u with ⟨-, heq⟩ | ⟨-, -, heq⟩ | ⟨-, -, heq⟩
    · rw [heq]
      exact (max_eq_left (Nat.zero_le _)).symm
    · rw [heq]
    · rw [heq]
      exact (max_eq_left (h.longest.2 h.current.1.spell)).symm
  rw [hlongest]
  exact hunion

omit [NumericOrder α] in
theorem isGreatest_spell_nil : IsGreatest {n | IsSpell ([] : List α) n} 0 := by
  refine ⟨(ends_zero []).spell, ?_⟩
  rintro n ⟨before, stretch, after, heq, -, rfl⟩
  obtain ⟨heq, -⟩ := List.append_eq_nil_iff.1 heq.symm
  obtain ⟨-, rfl⟩ := List.append_eq_nil_iff.1 heq
  exact le_rfl

theorem tracked_first {first : α} (hfirst : Scalar.isNaN first = false) :
    Tracked [first] ⟨first, 0.0, 0, 0⟩ := by
  have hends : ∀ n, EndsSpell [first] n → n ≤ 0 := by
    intro n hn
    change EndsSpell ([] ++ [first]) n at hn
    rcases ends_concat.1 hn with rfl | ⟨before, stretch, heq, -, hu, -⟩
    · exact le_rfl
    · obtain ⟨rfl, -⟩ := List.append_eq_nil_iff.1 heq.symm
      exact absurd (fun w hw => absurd hw List.not_mem_nil) hu
  refine ⟨⟨List.mem_singleton_self first, ?_⟩, ⟨ends_zero _, fun n => hends n⟩,
    ⟨(ends_zero _).spell, fun n hn => ?_⟩⟩
  · exact List.forall_mem_singleton.2 (not_lt_self hfirst)
  · change IsSpell ([] ++ [first]) n at hn
    exact (spell_concat.1 hn).elim (fun hn => isGreatest_spell_nil.2 hn) (hends n)

/-- **What is reported for a series is the most values below the peak in a stretch without a new
one.** -/
theorem tracked {first : α} {rest : List α} (hpos : ∀ w ∈ first :: rest, (0.0 : α) < w)
    (hnumbers : ∀ w ∈ first :: rest, Scalar.isNaN w = false) :
    Tracked (first :: rest) (drawdown first (first :: rest)) := by
  have hself := not_lt_self (hnumbers first List.mem_cons_self)
  refine drawdown_induction hself (tracked_first (hnumbers first List.mem_cons_self)) ?_
  · intro seen v more d heq hd
    have hmem : ∀ w ∈ seen ++ [v], w ∈ first :: rest := by
      intro w hw
      rw [heq, List.append_cons]
      exact List.mem_append_left more hw
    exact hd.next (fun w hw => hpos w (hmem w (List.mem_append_left _ hw)))
      fun w hw => hnumbers w (hmem w hw)

/-! ### Runs -/

theorem IsBelow.not_above {before : List α} (h : IsBelow before v)
    (hnumbers : ∀ w ∈ before, Scalar.isNaN w = false) (hv : Scalar.isNaN v = false) :
    ¬ IsAbove before v := by
  obtain ⟨w, hw, hvw⟩ := h
  intro habove
  exact not_lt_of_lt hv (hnumbers w hw) hv hvw (not_lt_self hv) (habove w hw)

theorem IsRun.spell (h : IsRun values run) (hnumbers : ∀ w ∈ values, Scalar.isNaN w = false) :
    IsSpell values run.length := by
  obtain ⟨before, after, rfl, hrun⟩ := h
  obtain ⟨hnumbers, -⟩ := List.forall_mem_append.1 hnumbers
  obtain ⟨hbefore, hnumbers⟩ := List.forall_mem_append.1 hnumbers
  refine ⟨before, run, after, rfl, fun v hv => (hrun v hv).not_above hbefore (hnumbers v hv), ?_⟩
  exact (List.countP_eq_length.2 fun v hv => decide_eq_true (hrun v hv)).symm

theorem lt_of_lt_of_not_lt {x y z : α} (hx : Scalar.isNaN x = false) (hy : Scalar.isNaN y = false)
    (hz : Scalar.isNaN z = false) (hxy : x < y) (h : ¬ z < y) : x < z := by
  obtain ⟨κ, _, place, hplace⟩ := NumericOrder.exists_place (α := α)
  rw [(hplace x y hx hy).1] at hxy
  rw [(hplace z y hz hy).1] at h
  rw [(hplace x z hx hz).1]
  exact hxy.trans_le (not_lt.1 h)

omit [NumericOrder α] in
theorem NoneAtPeak.below_or_above {after : List α} (h : NoneAtPeak (before ++ v :: after)) :
    IsBelow before v ∨ IsAbove before v := by
  simpa using h before.length (by simp)

/-- Where no value is at the peak, every spell is a run. -/
theorem IsSpell.exists_run (h : IsSpell values n) (hnumbers : ∀ w ∈ values, Scalar.isNaN w = false)
    (hpeaks : NoneAtPeak values) : ∃ run, IsRun values run ∧ run.length = n := by
  obtain ⟨before, stretch, after, rfl, hstretch, rfl⟩ := h
  have hbelow : ∀ v ∈ stretch, IsBelow before v := by
    intro v hv
    obtain ⟨head, tail, rfl⟩ := List.append_of_mem hv
    have hpeaks' : NoneAtPeak (before ++ head ++ v :: (tail ++ after)) := by
      simpa only [List.append_assoc, List.cons_append] using hpeaks
    rcases hpeaks'.below_or_above with ⟨w, hw, hvw⟩ | habove
    · rcases List.mem_append.1 hw with hw | hw
      · exact ⟨w, hw, hvw⟩
      · -- a value of the stretch is no higher than one before it
        have hmem : w ∈ head ++ v :: tail := List.mem_append_left _ hw
        obtain ⟨q, hq, hqw⟩ : ∃ q ∈ before, ¬ q < w := by
          simpa [IsAbove] using hstretch w hmem
        exact ⟨q, hq, lt_of_lt_of_not_lt (hnumbers v (by simp)) (hnumbers w (by simp [hw]))
          (hnumbers q (by simp [hq])) hvw hqw⟩
    · exact absurd (fun q hq => habove q (List.mem_append_left _ hq)) (hstretch v hv)
  refine ⟨stretch, ⟨before, after, rfl, hbelow⟩, ?_⟩
  exact (List.countP_eq_length.2 fun v hv => decide_eq_true (hbelow v hv)).symm

end

/-! ### What is reported -/

/-- **How long a series stays below a peak.**  Of positive values, the metrics report the most
values below the peak in any stretch without a new peak.  No run is longer, so the longest run is
reported if and only if one of that length is there, and always if no value is exactly at the
peak. -/
theorem drawdown_duration_law {points : List (ValuePoint Float)}
    (hpos : ∀ p ∈ points, 0.0 < p.value) :
    IsGreatest {n | IsSpell (points.map ValuePoint.value) n}
        (compute points).maxDrawdownDuration ∧
      (IsGreatest {n | ∃ run, IsRun (points.map ValuePoint.value) run ∧ run.length = n}
          (compute points).maxDrawdownDuration ↔
        ∃ run, IsRun (points.map ValuePoint.value) run ∧
          run.length = (compute points).maxDrawdownDuration) ∧
      (NoneAtPeak (points.map ValuePoint.value) →
        IsGreatest {n | ∃ run, IsRun (points.map ValuePoint.value) run ∧ run.length = n}
          (compute points).maxDrawdownDuration) := by
  have hvalues : ∀ w ∈ points.map ValuePoint.value, (0.0 : Float) < w := by
    intro w hw
    obtain ⟨p, hp, rfl⟩ := List.mem_map.1 hw
    exact hpos p hp
  have hnumbers : ∀ w ∈ points.map ValuePoint.value, Scalar.isNaN w = false :=
    fun w hw => Binary64.isNaN_of_lt (hvalues w hw)
  have hlongest : IsGreatest {n | IsSpell (points.map ValuePoint.value) n}
      (compute points).maxDrawdownDuration := by
    cases points with
    | nil => exact isGreatest_spell_nil
    | cons first rest => exact (tracked hvalues hnumbers).longest
  have hiff : IsGreatest {n | ∃ run, IsRun (points.map ValuePoint.value) run ∧ run.length = n}
      (compute points).maxDrawdownDuration ↔ ∃ run, IsRun (points.map ValuePoint.value) run ∧
        run.length = (compute points).maxDrawdownDuration := by
    refine ⟨fun h => h.1, fun h => ⟨h, ?_⟩⟩
    rintro n ⟨run, hrun, rfl⟩
    exact hlongest.2 (hrun.spell hnumbers)
  exact ⟨hlongest, hiff, fun hpeaks => hiff.2 (hlongest.1.exists_run hnumbers hpeaks)⟩

/-- Two values below the first peak, then a new peak. -/
def regained : List (ValuePoint Float) :=
  [⟨⟨739100, by decide⟩, 100⟩, ⟨⟨739101, by decide⟩, 90⟩, ⟨⟨739102, by decide⟩, 95⟩,
    ⟨⟨739103, by decide⟩, 110⟩, ⟨⟨739104, by decide⟩, 105⟩]

/-- No value is at the peak, so the run of two is the longest. -/
theorem drawdown_duration_law_regained : (∀ p ∈ regained, 0.0 < p.value) ∧
    NoneAtPeak (regained.map ValuePoint.value) ∧ (compute regained).maxDrawdownDuration = 2 ∧
    IsGreatest {n | IsSpell (regained.map ValuePoint.value) n}
      (compute regained).maxDrawdownDuration ∧
    IsGreatest {n | ∃ run, IsRun (regained.map ValuePoint.value) run ∧ run.length = n}
      (compute regained).maxDrawdownDuration := by
  have hpos : ∀ p ∈ regained, 0.0 < p.value := by decide +kernel
  have hpeaks : NoneAtPeak (regained.map ValuePoint.value) := by
    show ∀ i (hi : i < (regained.map ValuePoint.value).length), _
    decide +kernel
  obtain ⟨hspells, -, hruns⟩ := drawdown_duration_law hpos
  exact ⟨hpos, hpeaks, by decide +kernel, hspells, hruns hpeaks⟩

/-- Two falls of one day, with the value back at the peak after each. -/
def atPeak : List (ValuePoint Float) :=
  [⟨⟨739100, by decide⟩, 100⟩, ⟨⟨739101, by decide⟩, 90⟩, ⟨⟨739102, by decide⟩, 100⟩,
    ⟨⟨739103, by decide⟩, 90⟩, ⟨⟨739104, by decide⟩, 100⟩]

/-- **A value at the peak does not end the count.**  Two values are reported, and no two in a row
are below the peak. -/
theorem counted_on_at_peak : (∀ p ∈ atPeak, 0.0 < p.value) ∧
    (compute atPeak).maxDrawdownDuration = 2 ∧
    ¬ IsGreatest {n | ∃ run, IsRun (atPeak.map ValuePoint.value) run ∧ run.length = n}
      (compute atPeak).maxDrawdownDuration := by
  have hcount : (compute atPeak).maxDrawdownDuration = 2 := by decide +kernel
  refine ⟨by decide +kernel, hcount, ?_⟩
  rw [hcount]
  rintro ⟨⟨run, hrun, hlength⟩, -⟩
  obtain ⟨i, hi, -, hbelow⟩ := hrun.exists_start
  rw [hlength] at hi hbelow
  revert i
  decide +kernel

end Metrics

end FactorPortfolio
