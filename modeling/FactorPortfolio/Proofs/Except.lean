import Mathlib.Tactic.Common

/-!
# Results that may be faults

What a sequence of steps that may fail has come to when it came to something: each of its steps
came to something.  `FailsWith P` says of which kind the fault is otherwise, and
`foldlM_eq_error_iff` which step it is that fails.  `Related R` compares two such sequences, step
by step: both come to values in relation, or both to one fault.
-/

namespace Except

variable {ε ε' α β : Type}

theorem bind_eq_ok_iff {x : Except ε α} {f : α → Except ε β} {b : β} :
    x >>= f = .ok b ↔ ∃ a, x = .ok a ∧ f a = .ok b := by
  cases x with
  | ok a => simp [Bind.bind, Except.bind]
  | error e => simp [Bind.bind, Except.bind]

theorem bind_eq_error_iff {x : Except ε α} {f : α → Except ε β} {e : ε} :
    x >>= f = .error e ↔ x = .error e ∨ ∃ a, x = .ok a ∧ f a = .error e := by
  cases x with
  | ok a => simp [Bind.bind, Except.bind]
  | error e => simp [Bind.bind, Except.bind]

theorem pure_eq_ok_iff {a b : α} : (pure a : Except ε α) = .ok b ↔ a = b := by
  simp [Pure.pure, Except.pure]

theorem map_eq_ok_iff {x : Except ε α} {f : α → β} {b : β} :
    x.map f = .ok b ↔ ∃ a, x = .ok a ∧ f a = b := by
  cases x with
  | ok a => simp [Except.map]
  | error e => simp [Except.map]

theorem map_eq_error_iff {x : Except ε α} {f : α → β} {e : ε} :
    x.map f = .error e ↔ x = .error e := by
  cases x with
  | ok a => simp [Except.map]
  | error e => simp [Except.map]

theorem mapError_eq_ok_iff {x : Except ε α} {f : ε → ε'} {a : α} :
    x.mapError f = .ok a ↔ x = .ok a := by
  cases x with
  | ok a => simp [Except.mapError]
  | error e => simp [Except.mapError]

theorem mem_of_mapM_eq_ok {f : α → Except ε β} {l : List α} {out : List β}
    (h : l.mapM f = .ok out) {b : β} : b ∈ out ↔ ∃ a ∈ l, f a = .ok b := by
  induction l generalizing out with
  | nil =>
    rw [List.mapM_nil, pure_eq_ok_iff] at h
    simp [← h]
  | cons a l ih =>
    rw [List.mapM_cons] at h
    obtain ⟨b', hb', h⟩ := bind_eq_ok_iff.1 h
    obtain ⟨out', hout', h⟩ := bind_eq_ok_iff.1 h
    obtain rfl := pure_eq_ok_iff.1 h
    rw [List.mem_cons, ih hout']
    simp [hb', eq_comm]

/-- The results stand in the order of what they are the results of. -/
theorem forall₂_of_mapM_eq_ok {f : α → Except ε β} {l : List α} {out : List β}
    (h : l.mapM f = .ok out) : List.Forall₂ (fun a b => f a = .ok b) l out := by
  induction l generalizing out with
  | nil =>
    rw [List.mapM_nil, pure_eq_ok_iff] at h
    exact h ▸ .nil
  | cons a l ih =>
    rw [List.mapM_cons] at h
    obtain ⟨b, hb, h⟩ := bind_eq_ok_iff.1 h
    obtain ⟨out', hout', h⟩ := bind_eq_ok_iff.1 h
    obtain rfl := pure_eq_ok_iff.1 h
    exact .cons hb (ih hout')

theorem exists_of_mapM_eq_ok {f : α → Except ε β} {l : List α} {out : List β}
    (h : l.mapM f = .ok out) {a : α} (ha : a ∈ l) : ∃ b, f a = .ok b := by
  induction l generalizing out with
  | nil => cases ha
  | cons a' l ih =>
    rw [List.mapM_cons] at h
    obtain ⟨b, hb, h⟩ := bind_eq_ok_iff.1 h
    obtain ⟨out', hout', h⟩ := bind_eq_ok_iff.1 h
    rcases List.mem_cons.1 ha with rfl | ha
    · exact ⟨b, hb⟩
    · exact ih hout' ha

theorem exists_mapM_eq_ok {f : α → Except ε β} {l : List α} (h : ∀ a ∈ l, ∃ b, f a = .ok b) :
    ∃ out, l.mapM f = .ok out := by
  induction l with
  | nil => exact ⟨[], rfl⟩
  | cons a l ih =>
    obtain ⟨⟨b, hb⟩, hl⟩ := List.forall_mem_cons.1 h
    obtain ⟨out, hout⟩ := ih hl
    exact ⟨b :: out, by rw [List.mapM_cons, hb, hout]; rfl⟩

theorem mapM_eq_ok {f : α → Except ε β} {g : α → β} {l : List α} (h : ∀ a ∈ l, f a = .ok (g a)) :
    l.mapM f = .ok (l.map g) := by
  induction l with
  | nil => rfl
  | cons a l ih =>
    obtain ⟨ha, hl⟩ := List.forall_mem_cons.1 h
    rw [List.mapM_cons, ha, ih hl]
    rfl

theorem mapM_congr {f g : α → Except ε β} {l : List α} (h : ∀ a ∈ l, f a = g a) :
    l.mapM f = l.mapM g := by
  induction l with
  | nil => rfl
  | cons a l ih =>
    obtain ⟨ha, hl⟩ := List.forall_mem_cons.1 h
    rw [List.mapM_cons, List.mapM_cons, ha, ih hl]

theorem mem_of_mapM_pair_eq_ok {f : α → Except ε β} {l : List α} {out : List (α × β)}
    (h : l.mapM (fun a => return (a, ← f a)) = .ok out) {e : α × β} :
    e ∈ out ↔ e.1 ∈ l ∧ f e.1 = .ok e.2 := by
  rw [mem_of_mapM_eq_ok h]
  constructor
  · rintro ⟨a, ha, hstep⟩
    obtain ⟨b, hb, hstep⟩ := bind_eq_ok_iff.1 hstep
    obtain rfl := pure_eq_ok_iff.1 hstep
    exact ⟨ha, hb⟩
  · rintro ⟨ha, hb⟩
    exact ⟨e.1, ha, bind_eq_ok_iff.2 ⟨e.2, hb, rfl⟩⟩

theorem exists_of_mapM_pair_eq_ok {f : α → Except ε β} {l : List α} {out : List (α × β)}
    (h : l.mapM (fun a => return (a, ← f a)) = .ok out) {a : α} (ha : a ∈ l) :
    ∃ b, f a = .ok b := by
  obtain ⟨e, he⟩ := exists_of_mapM_eq_ok h ha
  obtain ⟨b, hb, _⟩ := bind_eq_ok_iff.1 he
  exact ⟨b, hb⟩

/-- What holds at the start and after every step holds at the end. -/
theorem foldlM_induction {f : β → α → Except ε β} {P : β → Prop} {l : List α}
    (step : ∀ b a b', P b → f b a = .ok b' → P b') {b b' : β} (h : l.foldlM f b = .ok b')
    (start : P b) : P b' := by
  induction l generalizing b with
  | nil => exact pure_eq_ok_iff.1 h ▸ start
  | cons a l ih =>
    rw [List.foldlM_cons] at h
    obtain ⟨b₁, hb₁, h⟩ := bind_eq_ok_iff.1 h
    exact ih h (step b a b₁ start hb₁)

/-- Where every step comes to something that answers to a step without faults, so does the run. -/
theorem exists_foldlM_eq_ok {γ : Type} {f : β → α → Except ε β} {g : γ → α → γ}
    {R : β → γ → Prop} {l : List α}
    (step : ∀ a ∈ l, ∀ b c, R b c → ∃ b', f b a = .ok b' ∧ R b' (g c a)) {b : β} {c : γ}
    (start : R b c) : ∃ b', l.foldlM f b = .ok b' ∧ R b' (l.foldl g c) := by
  induction l generalizing b c with
  | nil => exact ⟨b, rfl, start⟩
  | cons a l ih =>
    obtain ⟨hstep, hrest⟩ := List.forall_mem_cons.1 step
    obtain ⟨b₁, hb₁, hR⟩ := hstep b c start
    obtain ⟨b', hb', hR'⟩ := ih hrest hR
    exact ⟨b', by rw [List.foldlM_cons, hb₁]; exact hb', hR'⟩

theorem foldlM_congr {f g : β → α → Except ε β} {l : List α} (h : ∀ a ∈ l, ∀ b, f b a = g b a)
    (b : β) : l.foldlM f b = l.foldlM g b := by
  induction l generalizing b with
  | nil => rfl
  | cons a l ih =>
    obtain ⟨ha, hl⟩ := List.forall_mem_cons.1 h
    rw [List.foldlM_cons, List.foldlM_cons, ha b]
    exact bind_congr fun b' => ih hl b'

section

variable {r : α → α → Prop} (hr : ∀ a b, r a b → ¬ r b a) {P : α → Prop} {g : α → ε}
  {l : List α} (hl : l.Pairwise r)

include hr hl

/-- **A run over a list in order stops at the least element that fails**, where it is up to the
elements alone which of them fail. -/
theorem foldlM_eq_error_iff {f : β → α → Except ε β}
    (hok : ∀ a ∈ l, P a → ∀ b, ∃ b', f b a = .ok b')
    (herr : ∀ a ∈ l, ¬ P a → ∀ b, f b a = .error (g a)) {b : β} {e : ε} :
    l.foldlM f b = .error e ↔
      ∃ a ∈ l, ¬ P a ∧ (∀ a' ∈ l, r a' a → P a') ∧ e = g a := by
  induction l generalizing b with
  | nil => simp [pure, Except.pure]
  | cons a l ih =>
    obtain ⟨hhead, htail⟩ := List.pairwise_cons.1 hl
    obtain ⟨hoka, hok⟩ := List.forall_mem_cons.1 hok
    obtain ⟨herra, herr⟩ := List.forall_mem_cons.1 herr
    rw [List.foldlM_cons]
    by_cases ha : P a
    · obtain ⟨b', hb'⟩ := hoka ha b
      rw [hb']
      refine (ih htail hok herr).trans ⟨?_, ?_⟩
      · rintro ⟨c, hc, hnot, hleast, he⟩
        exact ⟨c, List.mem_cons_of_mem _ hc, hnot,
          List.forall_mem_cons.2 ⟨fun _ => ha, hleast⟩, he⟩
      · rintro ⟨c, hc, hnot, hleast, he⟩
        rcases List.mem_cons.1 hc with rfl | hc
        · exact absurd ha hnot
        · exact ⟨c, hc, hnot, (List.forall_mem_cons.1 hleast).2, he⟩
    · rw [herra ha b]
      constructor
      · intro he
        cases he
        refine ⟨a, List.mem_cons_self, ha, List.forall_mem_cons.2 ⟨fun haa => ?_, ?_⟩, rfl⟩
        · exact absurd haa (hr a a haa)
        · exact fun c hc hca => absurd (hhead c hc) (hr c a hca)
      · rintro ⟨c, hc, hnot, hleast, rfl⟩
        rcases List.mem_cons.1 hc with rfl | hc
        · rfl
        · exact absurd (hleast a List.mem_cons_self (hhead c hc)) ha

theorem mapM_eq_error_iff {f : α → Except ε β} (hok : ∀ a ∈ l, P a → ∃ b, f a = .ok b)
    (herr : ∀ a ∈ l, ¬ P a → f a = .error (g a)) {e : ε} :
    l.mapM f = .error e ↔ ∃ a ∈ l, ¬ P a ∧ (∀ a' ∈ l, r a' a → P a') ∧ e = g a := by
  have hfold : l.mapM f = .error e ↔
      l.foldlM (fun (_ : Unit) a => (f a).map fun _ => ()) () = .error e := by
    clear hok herr hl
    induction l with
    | nil => simp [pure, Except.pure]
    | cons a l ih =>
      rw [List.mapM_cons, List.foldlM_cons]
      cases f a with
      | error e' =>
        constructor <;> intro he <;> cases he <;> rfl
      | ok b =>
        refine Iff.trans ?_ ih
        cases List.mapM f l with
        | error e' => exact Iff.rfl
        | ok bs => exact iff_of_false nofun nofun
  rw [hfold]
  refine foldlM_eq_error_iff hr hl (fun a ha hP b => ?_) fun a ha hP b => ?_
  · obtain ⟨y, hy⟩ := hok a ha hP
    exact ⟨(), by rw [hy]; rfl⟩
  · rw [herr a ha hP]
    rfl

end

theorem exists_of_toOption_any {x : Except ε α} {p : α → Bool} (h : x.toOption.any p = true) :
    ∃ a, x = .ok a ∧ p a = true := by
  cases x with
  | ok a => exact ⟨a, rfl, h⟩
  | error e => cases h

/-! ### Faults of a kind -/

/-- The result is a value or a fault of the kind `P`. -/
def FailsWith (P : ε → Prop) (x : Except ε α) : Prop := ∀ e, x = .error e → P e

section

variable {P : ε → Prop}

theorem failsWith_ok (a : α) : FailsWith P (.ok a : Except ε α) := fun _ h => by cases h

theorem FailsWith.bind {x : Except ε α} {f : α → Except ε β} (hx : FailsWith P x)
    (hf : ∀ a, FailsWith P (f a)) : FailsWith P (x >>= f) := by
  intro e he
  cases x with
  | ok a => exact hf a e he
  | error e' =>
    cases he
    exact hx e rfl

theorem failsWith_mapM {f : α → Except ε β} (h : ∀ a, FailsWith P (f a)) (l : List α) :
    FailsWith P (l.mapM f) := by
  induction l with
  | nil => exact failsWith_ok []
  | cons a l ih =>
    rw [List.mapM_cons]
    exact (h a).bind fun b => ih.bind fun bs => failsWith_ok _

end

/-! ### Two results compared -/

/-- Both are values, in relation to one another, or both the same fault. -/
inductive Related {α' : Type} (R : α → α' → Prop) : Except ε α → Except ε α' → Prop
  | ok {a : α} {a' : α'} (h : R a a') : Related R (.ok a) (.ok a')
  | error (e : ε) : Related R (.error e) (.error e)

section

variable {α' β' : Type} {R : α → α' → Prop} {S : β → β' → Prop} {x : Except ε α}
  {x' : Except ε α'}

theorem Related.bind {f : α → Except ε β} {f' : α' → Except ε β'} (hx : Related R x x')
    (hf : ∀ a a', x = .ok a → x' = .ok a' → R a a' → Related S (f a) (f' a')) :
    Related S (x >>= f) (x' >>= f') := by
  cases hx with
  | ok h => exact hf _ _ rfl rfl h
  | error e => exact .error e

/-- Results that begin with one step are compared by what comes after it. -/
theorem related_bind_left {f : α → Except ε β} {f' : α → Except ε β'}
    (h : ∀ a, x = .ok a → Related S (f a) (f' a)) : Related S (x >>= f) (x >>= f') := by
  cases x with
  | ok a => exact h a rfl
  | error e => exact .error e

theorem Related.mapError (h : Related R x x') (g : ε → ε') :
    Related R (x.mapError g) (x'.mapError g) := by
  cases h with
  | ok h => exact .ok h
  | error e => exact .error (g e)

theorem related_foldlM {γ : Type} {f : α → γ → Except ε α} {f' : α' → γ → Except ε α'}
    (step : ∀ c a a', R a a' → Related R (f a c) (f' a' c)) (l : List γ) {a : α} {a' : α'}
    (start : R a a') : Related R (l.foldlM f a) (l.foldlM f' a') := by
  induction l generalizing a a' with
  | nil => exact .ok start
  | cons c l ih =>
    rw [List.foldlM_cons, List.foldlM_cons]
    exact (step c a a' start).bind fun _ _ _ _ h => ih h

theorem Related.exists_ok_iff (h : Related R x x') : (∃ a, x = .ok a) ↔ ∃ a', x' = .ok a' := by
  cases h with
  | ok h => exact iff_of_true ⟨_, rfl⟩ ⟨_, rfl⟩
  | error e => exact iff_of_false nofun nofun

theorem Related.error_iff (h : Related R x x') (e : ε) : x = .error e ↔ x' = .error e := by
  cases h with
  | ok h => exact iff_of_false nofun nofun
  | error e' => rw [Except.error.injEq, Except.error.injEq]

theorem Related.of_ok (h : Related R x x') {a : α} {a' : α'} (ha : x = .ok a) (ha' : x' = .ok a') :
    R a a' := by
  subst ha ha'
  cases h with
  | ok h => exact h

end

end Except
