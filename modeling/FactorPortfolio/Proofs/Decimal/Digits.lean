import FactorPortfolio.Decimal.Digits
import FactorPortfolio.Text.Blank
import Mathlib.Tactic.Common

/-!
# Writing and reading digits

`ofDigits` undoes `digits`, with or without zeros in front (`ofDigits_digits`, `ofDigits_padded`),
and all that is written is digits.  `length_padded` says when a padded number has exactly the
width that it was padded to, which is what a reader that counts digits relies on.
-/

namespace FactorPortfolio

open Text

theorem Text.toNat_of_isDigit {c : Char} (h : isDigit c = true) : 48 ≤ c.toNat ∧ c.toNat ≤ 57 := by
  simpa [isDigit, Char.le_def, UInt32.le_iff_toNat_le] using h

theorem Text.isBlank_of_isDigit {c : Char} (h : isDigit c = true) : isBlank c = false := by
  have hval := toNat_of_isDigit h
  simp [isBlank]
  omega

theorem Text.takeWhile_eq_left {p : Char → Bool} {w rest : List Char} (hw : ∀ c ∈ w, p c = true)
    (hrest : ∀ c ∈ rest.head?, p c = false) : (w ++ rest).takeWhile p = w := by
  rw [List.takeWhile_append_of_pos hw]
  cases rest with
  | nil => simp
  | cons c rest => simp [hrest c rfl]

namespace Decimal

/-! ### One digit -/

theorem toNat_ofNat_of_lt : ∀ d : Nat, d < 10 → (Char.ofNat (48 + d)).toNat = 48 + d := by decide

theorem isDigit_ofNat_of_lt : ∀ d : Nat, d < 10 → isDigit (Char.ofNat (48 + d)) = true := by decide

theorem toNat_digitChar (n : Nat) : (digitChar n).toNat = 48 + n % 10 :=
  toNat_ofNat_of_lt _ (Nat.mod_lt _ (by decide))

theorem isDigit_digitChar (n : Nat) : isDigit (digitChar n) = true :=
  isDigit_ofNat_of_lt _ (Nat.mod_lt _ (by decide))

theorem digitValue_digitChar (n : Nat) : digitValue (digitChar n) = n % 10 := by
  rw [digitValue, toNat_digitChar]
  omega

/-! ### Digits of a number -/

theorem digits_of_lt {n : Nat} (h : n < 10) : digits n = [digitChar n] := by
  rw [digits, dif_pos h]

theorem digits_of_le {n : Nat} (h : 10 ≤ n) : digits n = digits (n / 10) ++ [digitChar n] := by
  rw [digits, dif_neg (by omega)]

theorem digits_ne_nil (n : Nat) : digits n ≠ [] := by
  rw [digits]
  split <;> simp

theorem isDigit_of_mem_digits {n : Nat} : ∀ c ∈ digits n, isDigit c = true := by
  fun_induction digits n with
  | case1 n h =>
    intro c hc
    rw [List.mem_singleton] at hc
    rw [hc, isDigit_digitChar]
  | case2 n h ih =>
    intro c hc
    rw [List.mem_append, List.mem_singleton] at hc
    rcases hc with hc | hc
    · exact ih c hc
    · rw [hc, isDigit_digitChar]

theorem ofDigits_append_singleton (ds : List Char) (c : Char) :
    ofDigits (ds ++ [c]) = 10 * ofDigits ds + digitValue c := by
  rw [ofDigits, List.foldl_append]
  rfl

/-- **Reading the digits of a number gives the number.** -/
theorem ofDigits_digits (n : Nat) : ofDigits (digits n) = n := by
  fun_induction digits n with
  | case1 n h =>
    rw [← List.nil_append [digitChar n], ofDigits_append_singleton, digitValue_digitChar]
    show 10 * 0 + n % 10 = n
    omega
  | case2 n h ih =>
    rw [ofDigits_append_singleton, ih, digitValue_digitChar]
    omega

theorem length_digits_le {n k : Nat} (hk : 1 ≤ k) (h : n < Nat.pow 10 k) :
    (digits n).length ≤ k := by
  induction k generalizing n with
  | zero => omega
  | succ k ih =>
    by_cases hn : n < 10
    · rw [digits_of_lt hn, List.length_singleton]
      omega
    · have hpow : Nat.pow 10 (k + 1) = Nat.pow 10 k * 10 := rfl
      have hk1 : 1 ≤ k := by
        by_contra hk0
        have : k = 0 := by omega
        subst this
        exact hn h
      rw [digits_of_le (by omega), List.length_append, List.length_singleton]
      have := ih (n := n / 10) hk1 (by omega)
      omega

/-! ### Numbers with zeros in front -/

theorem toList_padded (width n : Nat) :
    (padded width n).toList = List.replicate (width - (digits n).length) '0' ++ digits n :=
  String.toList_ofList

theorem isDigit_of_mem_padded {width n : Nat} :
    ∀ c ∈ (padded width n).toList, isDigit c = true := by
  intro c hc
  rw [toList_padded, List.mem_append, List.mem_replicate] at hc
  rcases hc with ⟨_, rfl⟩ | hc
  · rfl
  · exact isDigit_of_mem_digits c hc

theorem ofDigits_replicate_append (k : Nat) (ds : List Char) :
    ofDigits (List.replicate k '0' ++ ds) = ofDigits ds := by
  induction k with
  | zero => rfl
  | succ k ih =>
    rw [List.replicate_succ, List.cons_append, ← ih]
    rfl

theorem ofDigits_padded (width n : Nat) : ofDigits (padded width n).toList = n := by
  rw [toList_padded, ofDigits_replicate_append, ofDigits_digits]

theorem length_padded {width n : Nat} (hw : 1 ≤ width) (h : n < Nat.pow 10 width) :
    (padded width n).toList.length = width := by
  have := length_digits_le hw h
  rw [toList_padded, List.length_append, List.length_replicate]
  omega

theorem padded_ne_nil (width n : Nat) : (padded width n).toList ≠ [] := by
  rw [toList_padded]
  simp [digits_ne_nil]

end Decimal

end FactorPortfolio
