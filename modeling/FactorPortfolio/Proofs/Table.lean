import FactorPortfolio.Table
import Mathlib.Data.List.Sort
import Mathlib.Tactic.Common

/-!
# Look-ups in tables

A table is known by its look-ups: `get?_eq_some_iff` says that `get?` finds exactly the entries,
and `ext_get?` that two tables with the same look-ups are the same table.  So every operation is
described once by what it does to `get?`, and later files do not look at entries.

* `get?_insert_self`, `get?_insert_of_ne`, `get?_filter`, `get?_map`: the single operations.
* `get?_ofList`, `get?_ofList_iff`: a table made from the graph of a function looks that function
  up.
* `view_foldl_entries`: what a fold over the entries does to the part of one key.
* `last?_eq_some_iff`: the last entry is the one with the greatest key.
* `KeySet.contains_ofList`: the same for sets of keys.
-/

namespace FactorPortfolio

namespace Table

set_option linter.unusedSectionVars false

variable {κ ν μ : Type} [Ord κ] [Std.TransOrd κ] [Std.LawfulEqOrd κ]

/-! ### Entries and look-ups -/

theorem lookup_eq_some_iff {k : κ} {v : ν} {l : List (κ × ν)}
    (h : l.Pairwise fun a b => compare a.1 b.1 = .lt) : lookup k l = some v ↔ (k, v) ∈ l := by
  induction l with
  | nil => simp [lookup]
  | cons e l ih =>
    obtain ⟨k', v'⟩ := e
    obtain ⟨hhead, htail⟩ := List.pairwise_cons.1 h
    rw [lookup, List.mem_cons]
    by_cases hk : compare k k' = .eq
    · have he : k = k' := Std.LawfulEqOrd.eq_of_compare hk
      subst he
      have hnot : (k, v) ∉ l := by
        intro hm
        have := hhead _ hm
        rw [Std.ReflOrd.compare_self] at this
        exact absurd this (by decide)
      rw [if_pos hk]
      simp [hnot, eq_comm]
    · have hne : k ≠ k' := by
        rintro rfl
        exact hk Std.ReflOrd.compare_self
      rw [if_neg hk, ih htail]
      simp [hne]

theorem lookup_eq_none {k : κ} {l : List (κ × ν)} (h : ∀ e ∈ l, compare k e.1 = .lt) :
    lookup k l = none := by
  induction l with
  | nil => rfl
  | cons e l ih =>
    obtain ⟨he, hl⟩ := List.forall_mem_cons.1 h
    obtain ⟨k', v⟩ := e
    rw [lookup, if_neg (by rw [he]; decide), ih hl]

/-- **Look-ups find exactly the entries.** -/
theorem get?_eq_some_iff {t : Table κ ν} {k : κ} {v : ν} :
    t.get? k = some v ↔ (k, v) ∈ t.entries := lookup_eq_some_iff t.ascending

theorem contains_iff_exists {t : Table κ ν} {k : κ} :
    t.contains k = true ↔ ∃ v, (k, v) ∈ t.entries := by
  rw [contains, Option.isSome_iff_exists]
  exact exists_congr fun v => get?_eq_some_iff

theorem mem_keys_iff {t : Table κ ν} {k : κ} : k ∈ t.keys ↔ t.contains k = true := by
  rw [contains_iff_exists, keys, List.mem_map]
  constructor
  · rintro ⟨⟨k', v⟩, h, rfl⟩
    exact ⟨v, h⟩
  · rintro ⟨v, h⟩
    exact ⟨(k, v), h, rfl⟩

theorem nodup_of_ascending {τ : Type} {key : τ → κ} {l : List τ}
    (h : l.Pairwise fun a b => compare (key a) (key b) = .lt) : (l.map key).Nodup := by
  refine List.pairwise_map.2 (h.imp ?_)
  intro a b hlt heq
  rw [heq, Std.ReflOrd.compare_self] at hlt
  cases hlt

theorem nodup_keys (t : Table κ ν) : (t.entries.map Prod.fst).Nodup :=
  nodup_of_ascending t.ascending

theorem nodup_entries (t : Table κ ν) : t.entries.Nodup := List.Nodup.of_map _ t.nodup_keys

/-- **A fold over a table changes what belongs to a key at the entry of the key**, and nowhere
else; `view` is what belongs to it. -/
theorem view_foldl_entries {σ τ : Type} (view : σ → τ) (update : ν → τ → τ)
    {step : σ → κ × ν → σ} {k : κ} (hself : ∀ s v, view (step s (k, v)) = update v (view s))
    (hother : ∀ s e, e.1 ≠ k → view (step s e) = view s) (t : Table κ ν) (s : σ) :
    view (t.entries.foldl step s) =
      (t.get? k).elim (view s) fun v => update v (view s) := by
  obtain ⟨l, hl⟩ := t
  show view (l.foldl step s) = (lookup k l).elim (view s) fun v => update v (view s)
  induction l generalizing s with
  | nil => rfl
  | cons e l ih =>
    obtain ⟨k', v⟩ := e
    obtain ⟨hhead, htail⟩ := List.pairwise_cons.1 hl
    rw [List.foldl_cons, ih _ htail, lookup]
    by_cases hk : k = k'
    · subst hk
      -- no later entry has the key
      rw [if_pos Std.ReflOrd.compare_self, lookup_eq_none hhead]
      exact hself s v
    · rw [if_neg fun he => hk (Std.LawfulEqOrd.eq_of_compare he), hother s (k', v) (Ne.symm hk)]

theorem ext_entries {t u : Table κ ν} (h : t.entries = u.entries) : t = u := by
  obtain ⟨_, _⟩ := t
  obtain ⟨_, _⟩ := u
  cases h
  rfl

theorem keys_pairwise (t : Table κ ν) : t.keys.Pairwise fun a b => compare a b = .lt :=
  List.pairwise_map.2 t.ascending

theorem not_lt_of_lt {k k' : κ} (h : compare k k' = .lt) : ¬ compare k' k = .lt := by
  rw [Std.OrientedCmp.gt_of_lt h]
  decide

theorem eq_of_ascending {τ : Type} (key : τ → κ) {l l' : List τ}
    (h : l.Pairwise fun a b => compare (key a) (key b) = .lt)
    (h' : l'.Pairwise fun a b => compare (key a) (key b) = .lt) (hmem : ∀ a, a ∈ l ↔ a ∈ l') :
    l = l' := by
  have hperm : l.Perm l' := (List.perm_ext_iff_of_nodup
    (List.Nodup.of_map key (nodup_of_ascending h))
    (List.Nodup.of_map key (nodup_of_ascending h'))).2 hmem
  exact hperm.eq_of_pairwise (fun _ _ _ _ hab hba => absurd hba (not_lt_of_lt hab)) h h'

/-- **A table is determined by its look-ups.** -/
theorem ext_get? {t u : Table κ ν} (h : ∀ k, t.get? k = u.get? k) : t = u := by
  refine ext_entries (eq_of_ascending Prod.fst t.ascending u.ascending ?_)
  rintro ⟨k, v⟩
  rw [← get?_eq_some_iff, ← get?_eq_some_iff, h k]

/-! ### The single operations -/

theorem lookup_insertEntry_self (k : κ) (v : ν) (l : List (κ × ν)) :
    lookup k (insertEntry k v l) = some v := by
  induction l with
  | nil => rw [insertEntry, lookup, if_pos Std.ReflOrd.compare_self]
  | cons e l ih =>
    obtain ⟨k', v'⟩ := e
    rw [insertEntry]
    split
    · rw [lookup, if_pos Std.ReflOrd.compare_self]
    · rw [lookup, if_pos Std.ReflOrd.compare_self]
    · rename_i hk
      rw [lookup, if_neg (by rw [hk]; decide), ih]

theorem lookup_insertEntry_of_ne {k k' : κ} (h : k' ≠ k) (v : ν) (l : List (κ × ν)) :
    lookup k' (insertEntry k v l) = lookup k' l := by
  have hk : compare k' k ≠ .eq := fun he => h (Std.LawfulEqOrd.eq_of_compare he)
  induction l with
  | nil => simp [insertEntry, lookup, hk]
  | cons e l ih =>
    obtain ⟨k₁, v₁⟩ := e
    rw [insertEntry]
    split
    · rw [lookup, if_neg hk]
    · rename_i he
      have : k = k₁ := Std.LawfulEqOrd.eq_of_compare he
      subst this
      rw [lookup, if_neg hk, lookup, if_neg hk]
    · rw [lookup, lookup, ih]

@[simp] theorem get?_insert_self (t : Table κ ν) (k : κ) (v : ν) :
    (t.insert k v).get? k = some v := lookup_insertEntry_self k v t.entries

theorem get?_insert_of_ne (t : Table κ ν) {k k' : κ} (h : k' ≠ k) (v : ν) :
    (t.insert k v).get? k' = t.get? k' := lookup_insertEntry_of_ne h v t.entries

theorem entries_insert_of_lt (t : Table κ ν) {k : κ} (v : ν)
    (h : ∀ e ∈ t.entries, compare e.1 k = .lt) :
    (t.insert k v).entries = t.entries ++ [(k, v)] := by
  have aux : ∀ l : List (κ × ν), (∀ e ∈ l, compare e.1 k = .lt) →
      insertEntry k v l = l ++ [(k, v)] := by
    intro l hl
    induction l with
    | nil => rfl
    | cons e l ih =>
      obtain ⟨k', v'⟩ := e
      obtain ⟨he, hrest⟩ := List.forall_mem_cons.1 hl
      rw [insertEntry, Std.OrientedCmp.gt_of_lt he]
      exact congrArg _ (ih hrest)
  exact aux t.entries h

theorem erase_of_get?_eq_none {t : Table κ ν} {k : κ} (h : t.get? k = none) : t.erase k = t := by
  refine ext_entries (List.filter_eq_self.2 fun e he => ?_)
  rw [bne_iff_ne]
  intro heq
  rw [Std.LawfulEqOrd.eq_of_compare heq, get?_eq_some_iff.2 he] at h
  cases h

theorem get?_eq_none_of_lt {t : Table κ ν} {k : κ} (h : ∀ e ∈ t.entries, compare e.1 k = .lt) :
    t.get? k = none := by
  rw [Option.eq_none_iff_forall_ne_some]
  intro v hv
  have hlt := h _ (get?_eq_some_iff.1 hv)
  rw [Std.ReflOrd.compare_self] at hlt
  cases hlt

theorem get?_filter (keep : κ → ν → Bool) (t : Table κ ν) (k : κ) :
    (t.filter keep).get? k = (t.get? k).filter (keep k) := by
  apply Option.ext
  intro v
  rw [get?_eq_some_iff, Option.filter_eq_some_iff, get?_eq_some_iff]
  exact List.mem_filter

theorem get?_erase [DecidableEq κ] (t : Table κ ν) (k k' : κ) :
    (t.erase k).get? k' = if k' = k then none else t.get? k' := by
  rw [erase, get?_filter]
  split
  · rename_i h
    rw [h, Std.ReflOrd.compare_self]
    cases t.get? k <;> rfl
  · rename_i h
    have hne : (compare k k' != .eq) = true :=
      bne_iff_ne.2 fun he => h (Std.LawfulEqOrd.eq_of_compare he).symm
    cases t.get? k' <;> simp [hne]

theorem get?_map (f : κ → ν → μ) (t : Table κ ν) (k : κ) :
    (t.map f).get? k = (t.get? k).map (f k) := by
  have aux : ∀ l : List (κ × ν),
      lookup k (l.map fun e => (e.1, f e.1 e.2)) = (lookup k l).map (f k) := by
    intro l
    induction l with
    | nil => rfl
    | cons e l ih =>
      rw [List.map_cons, lookup, lookup]
      split
      · rename_i hk
        rw [Std.LawfulEqOrd.eq_of_compare hk]
        rfl
      · exact ih
  exact aux t.entries

/-! ### Tables made from lists -/

/-- Of the entries of a list with one value for each key, those already there give way. -/
theorem get?_foldl_insert {l : List (κ × ν)}
    (h : ∀ e ∈ l, ∀ e' ∈ l, e.1 = e'.1 → e.2 = e'.2) (t : Table κ ν) (k : κ) (v : ν) :
    (l.foldl (fun t e => t.insert e.1 e.2) t).get? k = some v ↔
      (k, v) ∈ l ∨ (∀ w, (k, w) ∉ l) ∧ t.get? k = some v := by
  induction l generalizing t with
  | nil => simp
  | cons e l ih =>
    obtain ⟨k₁, v₁⟩ := e
    have hl : ∀ e ∈ l, ∀ e' ∈ l, e.1 = e'.1 → e.2 = e'.2 :=
      fun e he e' he' => h e (List.mem_cons_of_mem _ he) e' (List.mem_cons_of_mem _ he')
    rw [List.foldl_cons, ih hl]
    by_cases hk : k = k₁
    · subst hk
      have hone : ∀ w, (k, w) ∈ l → w = v₁ :=
        fun w hw => h _ (List.mem_cons_of_mem _ hw) _ List.mem_cons_self rfl
      rw [get?_insert_self]
      grind
    · rw [get?_insert_of_ne t hk]
      simp [hk]

/-- **A table of a list with one value for each key finds what is in the list.** -/
theorem get?_ofList {l : List (κ × ν)} (h : ∀ e ∈ l, ∀ e' ∈ l, e.1 = e'.1 → e.2 = e'.2) (k : κ)
    (v : ν) : (ofList l).get? k = some v ↔ (k, v) ∈ l := by
  rw [ofList, get?_foldl_insert h]
  simp [empty, get?, lookup]

theorem get?_ofList_iff {l : List (κ × ν)} {P : κ → ν → Prop} (hmem : ∀ k v, (k, v) ∈ l ↔ P k v)
    (hP : ∀ k v v', P k v → P k v' → v = v') (k : κ) (v : ν) :
    (ofList l).get? k = some v ↔ P k v := by
  rw [get?_ofList, hmem]
  rintro ⟨k, v⟩ he ⟨k', v'⟩ he' hk
  obtain rfl : k = k' := hk
  exact hP k v v' ((hmem k v).1 he) ((hmem k v').1 he')

theorem get?_ofList_filterMap (f : κ → Option ν) (ks : List κ) (k : κ) (v : ν) :
    (ofList (ks.filterMap fun k => (f k).map fun v => (k, v))).get? k = some v ↔
      k ∈ ks ∧ f k = some v := by
  refine get?_ofList_iff (P := fun k v => k ∈ ks ∧ f k = some v) ?_ ?_ k v
  · intro k v
    simp only [List.mem_filterMap, Option.map_eq_some_iff, Prod.mk.injEq]
    constructor
    · rintro ⟨k', hk', v', hv', rfl, rfl⟩
      exact ⟨hk', hv'⟩
    · rintro ⟨hk, hv⟩
      exact ⟨k, hk, v, hv, rfl, rfl⟩
  · rintro k v v' ⟨_, hv⟩ ⟨_, hv'⟩
    exact Option.some.inj (hv.symm.trans hv')

theorem mem_of_mem_ofList {l : List (κ × ν)} {e : κ × ν} (h : e ∈ (ofList l).entries) : e ∈ l := by
  have aux : ∀ (l : List (κ × ν)) (t : Table κ ν),
      e ∈ (l.foldl (fun t e => t.insert e.1 e.2) t).entries → e ∈ l ∨ e ∈ t.entries := by
    intro l
    induction l with
    | nil => exact fun t ht => .inr ht
    | cons e' l ih =>
      intro t ht
      rcases ih _ ht with hl | ht
      · exact .inl (List.mem_cons_of_mem _ hl)
      · rcases mem_insertEntry ht with rfl | ht
        · exact .inl List.mem_cons_self
        · exact .inr ht
  exact (aux l empty h).resolve_right List.not_mem_nil

theorem entries_ofList_perm {l : List (κ × ν)} (h : (l.map Prod.fst).Nodup) :
    (ofList l).entries.Perm l := by
  have hone : ∀ e ∈ l, ∀ e' ∈ l, e.1 = e'.1 → e.2 = e'.2 := by
    intro e he e' he' hk
    rw [List.inj_on_of_nodup_map h he he' hk]
  refine (List.perm_ext_iff_of_nodup (nodup_entries _) (List.Nodup.of_map _ h)).2 ?_
  rintro ⟨k, v⟩
  rw [← get?_eq_some_iff, get?_ofList hone]

theorem entries_ofList_of_ascending {l : List (κ × ν)}
    (h : l.Pairwise fun a b => compare a.1 b.1 = .lt) : (ofList l).entries = l := by
  have aux : ∀ (l : List (κ × ν)) (t : Table κ ν),
      (t.entries ++ l).Pairwise (fun a b => compare a.1 b.1 = .lt) →
        (l.foldl (fun t e => t.insert e.1 e.2) t).entries = t.entries ++ l := by
    intro l
    induction l with
    | nil =>
      intro t _
      rw [List.foldl_nil, List.append_nil]
    | cons e l ih =>
      intro t ht
      have hlast := entries_insert_of_lt t e.2 (k := e.1) fun e' he' =>
        (List.pairwise_append.1 ht).2.2 e' he' e List.mem_cons_self
      rw [List.append_cons, ← hlast] at ht ⊢
      rw [List.foldl_cons, ih _ ht]
  exact aux l empty h

/-! ### The last entry -/

/-- **The last entry is the one with the greatest key.** -/
theorem last?_eq_some_iff {t : Table κ ν} {k : κ} {v : ν} : t.last? = some (k, v) ↔
    t.get? k = some v ∧ ∀ k', compare k k' = .lt → t.get? k' = none := by
  rw [last?, List.getLast?_eq_some_iff]
  constructor
  · rintro ⟨l, hl⟩
    refine ⟨get?_eq_some_iff.2 (by simp [hl]), fun k' hk => ?_⟩
    rw [Option.eq_none_iff_forall_ne_some]
    intro v' hv
    have hmem := get?_eq_some_iff.1 hv
    have hsorted := t.ascending
    rw [hl, List.mem_append, List.mem_singleton] at hmem
    rw [hl, List.pairwise_append] at hsorted
    rcases hmem with hmem | heq
    · have hlt := Std.TransCmp.lt_trans hk (hsorted.2.2 _ hmem _ List.mem_cons_self)
      rw [Std.ReflOrd.compare_self] at hlt
      cases hlt
    · cases heq
      rw [Std.ReflOrd.compare_self] at hk
      cases hk
  · rintro ⟨hv, hmax⟩
    obtain ⟨l, r, hl⟩ := List.append_of_mem (get?_eq_some_iff.1 hv)
    cases r with
    | nil => exact ⟨l, hl⟩
    | cons e r =>
      -- an entry to the right has a greater key
      have hsorted := t.ascending
      rw [hl, List.pairwise_append, List.pairwise_cons] at hsorted
      have he : t.get? e.1 = some e.2 := get?_eq_some_iff.2 (by simp [hl])
      rw [hmax e.1 (hsorted.2.1.1 e List.mem_cons_self)] at he
      cases he

end Table

namespace KeySet

variable {κ : Type} [Ord κ] [Std.TransOrd κ] [Std.LawfulEqOrd κ]

theorem contains_add (s : KeySet κ) (k k' : κ) :
    Table.contains (s.add k) k' = true ↔ k' = k ∨ Table.contains s k' = true := by
  by_cases h : k' = k
  · subst h
    simp [Table.contains, add]
  · simp [Table.contains, add, Table.get?_insert_of_ne s h, h]

theorem contains_foldl_add (ks : List κ) (s : KeySet κ) (k : κ) :
    Table.contains (ks.foldl add s) k = true ↔ k ∈ ks ∨ Table.contains s k = true := by
  induction ks generalizing s with
  | nil => simp
  | cons k' ks ih =>
    rw [List.foldl_cons, ih, contains_add, List.mem_cons]
    tauto

/-- **A set made from a list contains what is in the list.** -/
theorem contains_ofList (ks : List κ) (k : κ) :
    Table.contains (ofList ks) k = true ↔ k ∈ ks := by
  rw [ofList, contains_foldl_add]
  simp [Table.contains, Table.get?, Table.empty, Table.lookup]

end KeySet

end FactorPortfolio
