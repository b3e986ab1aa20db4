/-! # Tables in key order

A table keeps its entries in strictly ascending order of their keys, so a key occurs once and two
tables with the same look-ups are the same table. `insertEntry` is the one operation on raw
entries that has to restore the order; every other operation drops entries or maps their values.
-/

namespace FactorPortfolio

/-- A finite map from `κ` to `ν` with its entries in ascending order of the keys. -/
structure Table (κ ν : Type) [Ord κ] where
  entries : List (κ × ν)
  ascending : entries.Pairwise fun a b => compare a.1 b.1 = .lt
  deriving DecidableEq

namespace Table

variable {κ ν μ : Type} [Ord κ]

/-! ### Reading -/

def lookup (k : κ) : List (κ × ν) → Option ν
  | [] => none
  | (k', v) :: rest => if compare k k' = .eq then some v else lookup k rest

def get? (t : Table κ ν) (k : κ) : Option ν := lookup k t.entries

def contains (t : Table κ ν) (k : κ) : Bool := (t.get? k).isSome

def keys (t : Table κ ν) : List κ := t.entries.map Prod.fst

def values (t : Table κ ν) : List ν := t.entries.map Prod.snd

def size (t : Table κ ν) : Nat := t.entries.length

def isEmpty (t : Table κ ν) : Bool := t.entries.isEmpty

def last? (t : Table κ ν) : Option (κ × ν) := t.entries.getLast?

/-! ### Writing -/

def empty : Table κ ν := ⟨[], .nil⟩

instance : EmptyCollection (Table κ ν) := ⟨empty⟩

instance : Inhabited (Table κ ν) := ⟨empty⟩

/-- Puts an entry where it belongs in ascending entries, in place of one with the same key. -/
def insertEntry (k : κ) (v : ν) : List (κ × ν) → List (κ × ν)
  | [] => [(k, v)]
  | (k', v') :: rest =>
    match compare k k' with
    | .lt => (k, v) :: (k', v') :: rest
    | .eq => (k, v) :: rest
    | .gt => (k', v') :: insertEntry k v rest

theorem mem_insertEntry {k : κ} {v : ν} {e : κ × ν} {l : List (κ × ν)}
    (h : e ∈ insertEntry k v l) : e = (k, v) ∨ e ∈ l := by
  induction l with
  | nil => simpa [insertEntry] using h
  | cons head rest ih =>
    obtain ⟨k', v'⟩ := head
    rw [insertEntry] at h
    split at h <;> grind

theorem ascending_insertEntry [Std.TransOrd κ] (k : κ) (v : ν) {l : List (κ × ν)}
    (h : l.Pairwise fun a b => compare a.1 b.1 = .lt) :
    (insertEntry k v l).Pairwise fun a b => compare a.1 b.1 = .lt := by
  induction l with
  | nil => simp [insertEntry]
  | cons head rest ih =>
    obtain ⟨k', v'⟩ := head
    have hrest := List.pairwise_cons.1 h
    rw [insertEntry]
    split
    case h_1 hk =>
      refine List.pairwise_cons.2 ⟨fun e he => ?_, h⟩
      rcases List.mem_cons.1 he with rfl | he
      · exact hk
      · exact Std.TransCmp.lt_trans hk (hrest.1 e he)
    case h_2 hk =>
      exact List.pairwise_cons.2
        ⟨fun e he => Std.TransCmp.lt_of_eq_of_lt hk (hrest.1 e he), hrest.2⟩
    case h_3 hk =>
      refine List.pairwise_cons.2 ⟨fun e he => ?_, ih hrest.2⟩
      rcases mem_insertEntry he with rfl | he
      · exact Std.OrientedCmp.lt_of_gt hk
      · exact hrest.1 e he

/-- Puts `v` under `k`, in place of what stood there. -/
def insert [Std.TransOrd κ] (t : Table κ ν) (k : κ) (v : ν) : Table κ ν :=
  ⟨insertEntry k v t.entries, ascending_insertEntry k v t.ascending⟩

def filter (keep : κ → ν → Bool) (t : Table κ ν) : Table κ ν :=
  ⟨t.entries.filter fun e => keep e.1 e.2, t.ascending.filter _⟩

def erase (t : Table κ ν) (k : κ) : Table κ ν := t.filter fun k' _ => compare k k' != .eq

def between (t : Table κ ν) (low high : κ) : Table κ ν :=
  t.filter fun k _ => (compare low k).isLE && (compare k high).isLE

def upTo (t : Table κ ν) (high : κ) : Table κ ν := t.filter fun k _ => (compare k high).isLE

def map (f : κ → ν → μ) (t : Table κ ν) : Table κ μ :=
  ⟨t.entries.map fun e => (e.1, f e.1 e.2), List.pairwise_map.2 t.ascending⟩

/-- The table of some entries; of two with one key the later stays. -/
def ofList [Std.TransOrd κ] (entries : List (κ × ν)) : Table κ ν :=
  entries.foldl (fun t e => t.insert e.1 e.2) empty

end Table

/-- A finite set of keys in ascending order. -/
abbrev KeySet (κ : Type) [Ord κ] := Table κ Unit

namespace KeySet

variable {κ : Type} [Ord κ] [Std.TransOrd κ]

def add (s : KeySet κ) (k : κ) : KeySet κ := Table.insert s k ()

/-- The distinct elements of a list, in ascending order. -/
def ofList (ks : List κ) : KeySet κ := ks.foldl add Table.empty

end KeySet

end FactorPortfolio
