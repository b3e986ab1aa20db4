import FactorPortfolio.Formula.Eval
import FactorPortfolio.Proofs.Calendar.Civil
import FactorPortfolio.Proofs.Decimal.Digits
import Mathlib.Data.List.TakeWhile

/-!
# Dates survive as text

A formula passes dates from one function to the next as text.  `Date.parse_text` says that nothing
is lost on the way: the text of a date reads back as that date, over the whole calendar, the years
below 0 and above 9999 with their signs included.  The reader takes the pieces apart in the order
in which `Date.text` puts them together, so there is one lemma for each piece.
-/

namespace FactorPortfolio.Date

open Text Decimal

/-! ### Reading digits off the front -/

theorem skipBlanks_cons {c : Char} (h : isBlank c = false) (cs : List Char) :
    skipBlanks (c :: cs) = c :: cs := by
  rw [skipBlanks, List.dropWhile_cons, h]
  rfl

theorem skipBlanks_digits {ds : List Char} (hne : ds ≠ []) (hds : ∀ c ∈ ds, isDigit c = true)
    (rest : List Char) : skipBlanks (ds ++ rest) = ds ++ rest := by
  cases ds with
  | nil => exact absurd rfl hne
  | cons c ds => exact skipBlanks_cons (isBlank_of_isDigit (hds c List.mem_cons_self)) _

theorem readNumber?_digits {most : Nat} {ds : List Char} (hne : ds ≠ [])
    (hds : ∀ c ∈ ds, isDigit c = true) (hlen : ds.length = most) (rest : List Char) :
    readNumber? most (ds ++ rest) = some (ofDigits ds, rest) := by
  have htake : ((ds ++ rest).take most).takeWhile isDigit = ds := by
    rw [← hlen, List.take_left, List.takeWhile_eq_self_iff.2 hds]
  rw [readNumber?, skipBlanks_digits hne hds]
  simp only [htake]
  cases ds with
  | nil => exact absurd rfl hne
  | cons c ds => simp only [List.drop_left]

theorem readNumber?_padded {m n : Nat} (hm : 1 ≤ m) (hn : n < Nat.pow 10 m)
    (rest : List Char) : readNumber? m ((padded m n).toList ++ rest) = some (n, rest) := by
  rw [readNumber?_digits (padded_ne_nil m n) isDigit_of_mem_padded (length_padded hm hn),
    ofDigits_padded]

theorem readSigned_padded (width n : Nat) (rest : List Char) :
    readYear?.readSigned ((padded width n).toList ++ '-' :: rest) = some (n, '-' :: rest) := by
  have htake : ((padded width n).toList ++ '-' :: rest).takeWhile isDigit =
      (padded width n).toList :=
    takeWhile_eq_left isDigit_of_mem_padded fun c hc => by
      cases hc
      rfl
  rw [readYear?.readSigned, htake]
  have hne := padded_ne_nil width n
  have hval := ofDigits_padded width n
  generalize (padded width n).toList = ds at hne hval ⊢
  cases ds with
  | nil => exact absurd rfl hne
  | cons c ds => simp only [List.drop_left, hval]

/-! ### The year -/

theorem readYear?_yearText (year : Int) (rest : List Char) :
    readYear? ((yearText year).toList ++ '-' :: rest) = some (year, '-' :: rest) := by
  rw [yearText]
  split
  case isTrue h =>
    obtain ⟨h0, h9999⟩ := h
    have hread := readNumber?_padded (m := 4) (n := year.toNat) (by decide)
      (show year.toNat < 10000 by omega) ('-' :: rest)
    have hdigits : ∀ c ∈ (padded 4 year.toNat).toList, isDigit c = true := isDigit_of_mem_padded
    have hne := padded_ne_nil 4 year.toNat
    generalize (padded 4 year.toNat).toList = ds at hread hdigits hne ⊢
    rw [readYear?, skipBlanks_digits hne hdigits]
    cases ds with
    | nil => exact absurd rfl hne
    | cons c ds =>
      -- a digit is none of the two signs, so the year is read as plain digits
      have hc := hdigits c List.mem_cons_self
      have hminus : c ≠ '-' := by rintro rfl; exact absurd hc (by decide)
      have hplus : c ≠ '+' := by rintro rfl; exact absurd hc (by decide)
      rw [List.cons_append] at hread ⊢
      split
      · rename_i heq
        exact absurd (List.cons.inj heq).1 hminus
      · rename_i heq
        exact absurd (List.cons.inj heq).1 hplus
      · rw [hread, Option.map_some]
        simp only [Int.toNat_of_nonneg h0]
  case isFalse h =>
    rw [String.toList_append]
    by_cases hneg : year < 0
    · rw [if_pos hneg]
      show readYear? ('-' :: ((padded 4 year.natAbs).toList ++ '-' :: rest)) = _
      rw [readYear?, skipBlanks_cons (by decide)]
      simp only [readSigned_padded, Option.map_some]
      rw [show -(year.natAbs : Int) = year by omega]
    · rw [if_neg hneg]
      show readYear? ('+' :: ((padded 4 year.natAbs).toList ++ '-' :: rest)) = _
      rw [readYear?, skipBlanks_cons (by decide)]
      simp only [readSigned_padded, Option.map_some]
      rw [show (year.natAbs : Int) = year by omega]

/-! ### The whole date -/

theorem toList_text (d : Date) : d.text.toList =
    (yearText d.civil.year).toList ++ '-' ::
      ((padded 2 d.civil.month).toList ++ '-' :: ((padded 2 d.civil.day).toList ++ [])) := by
  rw [text]
  simp only [String.toList_append, List.append_assoc, List.append_nil]
  rfl

theorem ofText?_text (d : Date) : ofText? d.text = some d := by
  have hvalid := d.isValid_civil
  have hmonth := Civil.month_le_of_isValid hvalid
  have hday := Civil.day_le_of_isValid hvalid
  rw [ofText?, read?, toList_text, readYear?_yearText]
  simp only [Option.bind_eq_bind, Option.bind_some, id_eq, readHyphen?]
  rw [readNumber?_padded (by decide) (show d.civil.month < 100 by omega)]
  simp only [Option.bind_some]
  rw [readNumber?_padded (by decide) (show d.civil.day < 100 by omega)]
  simp only [Option.bind_some, List.isEmpty_nil, if_true]
  exact d.ofCivil?_civil

/-! ### Blanks at the ends -/

theorem isBlank_of_mem_yearText {year : Int} : ∀ c ∈ (yearText year).toList, isBlank c = false := by
  intro c hc
  rw [yearText] at hc
  split at hc
  · exact isBlank_of_isDigit (isDigit_of_mem_padded c hc)
  · rw [String.toList_append, List.mem_append] at hc
    rcases hc with hc | hc
    · split at hc
      · have : c = '-' := by simpa using hc
        rw [this]; decide
      · have : c = '+' := by simpa using hc
        rw [this]; decide
    · exact isBlank_of_isDigit (isDigit_of_mem_padded c hc)

theorem isBlank_of_mem_text (d : Date) : ∀ c ∈ d.text.toList, isBlank c = false := by
  intro c hc
  rw [toList_text] at hc
  simp only [List.mem_append, List.mem_cons, List.append_nil] at hc
  rcases hc with hc | rfl | hc | rfl | hc
  · exact isBlank_of_mem_yearText c hc
  · decide
  · exact isBlank_of_isDigit (isDigit_of_mem_padded c hc)
  · decide
  · exact isBlank_of_isDigit (isDigit_of_mem_padded c hc)

theorem skipBlanks_of_forall {cs : List Char} (h : ∀ c ∈ cs, isBlank c = false) :
    skipBlanks cs = cs := by
  cases cs with
  | nil => rfl
  | cons c cs => exact skipBlanks_cons (h c List.mem_cons_self) cs

theorem trim_text (d : Date) : trim d.text = d.text := by
  have h := isBlank_of_mem_text d
  have hrev : ∀ c ∈ d.text.toList.reverse, isBlank c = false :=
    fun c hc => h c (List.mem_reverse.1 hc)
  rw [trim, trimChars, skipBlanks_of_forall h, skipBlanks_of_forall hrev, List.reverse_reverse,
    String.ofList_toList]

/-- **The text of a date reads back as the date.** -/
@[simp] theorem parse_text (d : Date) : Date.parse d.text = .ok d := by
  rw [Date.parse, trim_text, ofText?_text]

end FactorPortfolio.Date
