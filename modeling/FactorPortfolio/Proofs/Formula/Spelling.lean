import FactorPortfolio.Formula.Token
import FactorPortfolio.Proofs.Decimal.Digits
import Mathlib.Data.List.TakeWhile
import Mathlib.Tactic.Common

/-!
# How the tokens of a formula are spelled

`Spells l w rest` says, without an algorithm, that the characters `w` are the lexeme `l` where
`rest` follows: numbers and words are as long as they can be, and a text runs to the next quote of
its kind.  `Spelled ls cs` says that a source is the lexemes `ls`, with any blanks before, between
and after them.

* `leading_of_spells`: the reader of tokens finds the lexeme that is spelled where it stands.
* `spells_of_leading`: what it finds is spelled there, if it is no stray character.
* `map_lexeme_eq_iff`: so a source has the lexemes that spell it, and no others.
-/

namespace FactorPortfolio

open Text Decimal

def Token.marks : List Char := ['+', '-', '*', '/', '(', ')', ',']

/-- The lexeme is a number, a text, a word or a sign, and no stray character. -/
def Lexeme.IsProper {α : Type} : Lexeme α → Prop
  | .number _ | .text _ | .word _ => True
  | .mark c => c ∈ Token.marks
  | .lonePoint | .openText => False

namespace Token

variable {α : Type} [Scalar α]

/-- Digits with one point at most, and one digit at least. -/
structure IsNumber (w : List Char) : Prop where
  chars : ∀ c ∈ w, isDigit c = true ∨ c = '.'
  points : w.count '.' ≤ 1
  digit : ∃ c ∈ w, isDigit c = true

/-- The number that digits and a point write: its digits as a whole number, of which as many are
decimals as stand after the point. -/
def numberOf (w : List Char) : α :=
  OfScientific.ofScientific (ofDigits (w.filter isDigit)) true
    (w.dropWhile (· != '.')).tail.length

/-- The characters `w` are the lexeme where `rest` follows. -/
inductive Spells : Lexeme α → List Char → List Char → Prop
  | number {w rest : List Char} (h : IsNumber w)
      (hlongest : ∀ c ∈ rest.head?, ¬ IsNumber (w ++ [c])) : Spells (.number (numberOf w)) w rest
  | text {quote : Char} {content rest : List Char} (hquote : quote = '"' ∨ quote = '\'')
      (h : quote ∉ content) :
      Spells (.text (String.ofList content)) (quote :: (content ++ [quote])) rest
  | word {c : Char} {w rest : List Char} (hc : isDigit c = false)
      (h : ∀ d ∈ c :: w, isWordChar d = true)
      (hlongest : ∀ d ∈ rest.head?, isWordChar d = false) :
      Spells (.word (String.ofList (c :: w))) (c :: w) rest
  | mark {c : Char} {rest : List Char} (h : c ∈ marks) : Spells (.mark c) [c] rest

/-- The source is the lexemes one after the other, with any blanks around them. -/
inductive Spelled : List (Lexeme α) → List Char → Prop
  | nil {blanks : List Char} (h : ∀ c ∈ blanks, isBlank c = true) : Spelled [] blanks
  | cons {blanks w rest : List Char} {l : Lexeme α} {ls : List (Lexeme α)}
      (h : ∀ c ∈ blanks, isBlank c = true) (hl : Spells l w rest) (hls : Spelled ls rest) :
      Spelled (l :: ls) (blanks ++ (w ++ rest))

/-! ### Characters -/

section

variable {c : Char}

def blankCodes : List Nat :=
  List.range' 9 5 ++ [0x20, 0x85, 0xA0, 0x1680] ++ List.range' 0x2000 11 ++
    [0x2028, 0x2029, 0x202F, 0x205F, 0x3000]

theorem toNat_mem_blankCodes (h : isBlank c = true) : c.toNat ∈ blankCodes := by
  simp only [isBlank, Bool.or_eq_true, Bool.and_eq_true, decide_eq_true_eq, beq_iff_eq] at h
  simp only [blankCodes, List.mem_append, List.mem_range'_1, List.mem_cons, List.not_mem_nil,
    or_false]
  omega

theorem inRanges_of_mem_blankCodes :
    ∀ n ∈ blankCodes, inRanges n letterRanges = false ∧ n ≠ '_'.toNat := by
  decide +kernel

theorem isBlank_of_isWordChar (h : isWordChar c = true) : isBlank c = false := by
  by_contra hc
  rw [Bool.not_eq_false] at hc
  obtain ⟨hletter, hunderscore⟩ := inRanges_of_mem_blankCodes _ (toNat_mem_blankCodes hc)
  rw [isWordChar, isLetterOrNumber, hletter, Bool.false_or, beq_iff_eq] at h
  exact hunderscore (congrArg Char.toNat h)

theorem ne_point_of_isDigit (h : isDigit c = true) : c ≠ '.' := by
  rintro rfl
  cases h

theorem forall_mem_marks {p : Char → Prop} : (∀ c ∈ marks, p c) ↔
    p '+' ∧ p '-' ∧ p '*' ∧ p '/' ∧ p '(' ∧ p ')' ∧ p ',' := by
  simp [marks]

theorem isDigit_of_mem_marks : ∀ c ∈ marks, (isDigit c || c == '.') = false :=
  forall_mem_marks.2 (by decide)

theorem isQuote_of_mem_marks : ∀ c ∈ marks, (c == '"' || c == '\'') = false :=
  forall_mem_marks.2 (by decide)

theorem isWordChar_of_mem_marks : ∀ c ∈ marks, isWordChar c = false :=
  forall_mem_marks.2 (by decide +kernel)

theorem isBlank_of_mem_marks : ∀ c ∈ marks, isBlank c = false :=
  forall_mem_marks.2 (by decide)

end

theorem exists_longest (p : Char → Bool) (cs : List Char) : ∃ w rest, cs = w ++ rest ∧
    (∀ c ∈ w, p c = true) ∧ ∀ c ∈ rest.head?, p c = false := by
  refine ⟨cs.takeWhile p, cs.dropWhile p, List.takeWhile_append_dropWhile.symm,
    fun c => List.mem_takeWhile_imp, fun c hc => ?_⟩
  have hhead := List.head?_dropWhile_not p cs
  rw [hc] at hhead
  exact hhead

/-! ### Numbers -/

section

variable {whole fraction rest : List Char}

theorem isNumber_whole (h : ∀ c ∈ whole, isDigit c = true) (hne : whole ≠ []) :
    IsNumber whole where
  chars c hc := .inl (h c hc)
  points := by
    have hnot : '.' ∉ whole := fun hmem => ne_point_of_isDigit (h _ hmem) rfl
    simp [List.count_eq_zero_of_not_mem hnot]
  digit := by
    obtain ⟨c, hc⟩ := List.exists_mem_of_ne_nil whole hne
    exact ⟨c, hc, h c hc⟩

theorem isNumber_point (h : ∀ c ∈ whole ++ fraction, isDigit c = true)
    (hne : whole ++ fraction ≠ []) : IsNumber (whole ++ '.' :: fraction) where
  chars c hc := by
    rcases List.mem_append.1 hc with hc | hc
    · exact .inl (h c (List.mem_append_left _ hc))
    · rcases List.mem_cons.1 hc with rfl | hc
      · exact .inr rfl
      · exact .inl (h c (List.mem_append_right _ hc))
  points := by
    have hnot : '.' ∉ whole ++ fraction := fun hmem => ne_point_of_isDigit (h _ hmem) rfl
    have hcount := List.count_eq_zero_of_not_mem hnot
    rw [List.count_append] at hcount
    rw [List.count_append, List.count_cons_self]
    omega
  digit := by
    obtain ⟨c, hc⟩ := List.exists_mem_of_ne_nil _ hne
    refine ⟨c, ?_, h c hc⟩
    rcases List.mem_append.1 hc with hc | hc
    · exact List.mem_append_left _ hc
    · exact List.mem_append_right _ (List.mem_cons_of_mem _ hc)

theorem IsNumber.parts {w : List Char} (h : IsNumber w) :
    ((∀ c ∈ w, isDigit c = true) ∧ w ≠ []) ∨
      ∃ whole fraction, w = whole ++ '.' :: fraction ∧
        (∀ c ∈ whole ++ fraction, isDigit c = true) ∧ whole ++ fraction ≠ [] := by
  obtain ⟨whole, tail, rfl, hwhole, htail⟩ := exists_longest isDigit w
  cases tail with
  | nil =>
    rw [List.append_nil]
    refine .inl ⟨hwhole, fun hnil => ?_⟩
    obtain ⟨c, hc, _⟩ := h.digit
    rw [List.append_nil, hnil] at hc
    cases hc
  | cons c fraction =>
    have hpoint : c = '.' := (h.chars c (by simp)).resolve_left (by simp [htail c rfl])
    subst hpoint
    have hcount := h.points
    rw [List.count_append, List.count_cons_self] at hcount
    have hnot : '.' ∉ fraction := List.count_eq_zero.1 (by omega)
    refine .inr ⟨whole, fraction, rfl, fun d hd => ?_, fun hnil => ?_⟩
    · rcases List.mem_append.1 hd with hd | hd
      · exact hwhole d hd
      · refine (h.chars d (by simp [hd])).resolve_right ?_
        rintro rfl
        exact hnot hd
    · obtain ⟨d, hd, hdigit⟩ := h.digit
      obtain ⟨rfl, rfl⟩ := List.append_eq_nil_iff.1 hnil
      obtain rfl := List.mem_singleton.1 hd
      cases hdigit

theorem numberOf_whole (h : ∀ c ∈ whole, isDigit c = true) :
    (numberOf whole : α) = OfScientific.ofScientific (ofDigits whole) true 0 := by
  have hdrop : whole.dropWhile (· != '.') = [] :=
    List.dropWhile_eq_nil_iff.2 fun c hc => bne_iff_ne.2 (ne_point_of_isDigit (h c hc))
  rw [numberOf, List.filter_eq_self.2 h, hdrop]
  rfl

theorem numberOf_point (h : ∀ c ∈ whole ++ fraction, isDigit c = true) :
    (numberOf (whole ++ '.' :: fraction) : α) =
      OfScientific.ofScientific (ofDigits (whole ++ fraction)) true fraction.length := by
  have hfilter : (whole ++ '.' :: fraction).filter isDigit = whole ++ fraction := by
    rw [List.filter_append, List.filter_cons_of_neg (by decide), ← List.filter_append,
      List.filter_eq_self.2 h]
  have hdrop : (whole ++ '.' :: fraction).dropWhile (· != '.') = '.' :: fraction := by
    rw [List.dropWhile_append_of_pos fun c hc =>
      bne_iff_ne.2 (ne_point_of_isDigit (h c (List.mem_append_left _ hc)))]
    rfl
  rw [numberOf, hfilter, hdrop]
  rfl

theorem leadingNumber_whole (h : ∀ c ∈ whole, isDigit c = true) (hne : whole ≠ [])
    (hrest : ∀ c ∈ rest.head?, isDigit c = false ∧ c ≠ '.') :
    (leadingNumber (whole ++ rest) : Lexeme α × Nat) =
      (.number (numberOf whole), whole.length) := by
  have htake := takeWhile_eq_left h fun c hc => (hrest c hc).1
  rw [leadingNumber, htake, List.drop_left, numberOf_whole h]
  split
  next fraction points heq =>
    split at heq
    · exact absurd rfl (hrest '.' rfl).2
    · cases heq
      simp [hne]

theorem leadingNumber_point (h : ∀ c ∈ whole ++ fraction, isDigit c = true)
    (hrest : ∀ c ∈ rest.head?, isDigit c = false) :
    (leadingNumber (whole ++ '.' :: (fraction ++ rest)) : Lexeme α × Nat) =
      (if whole.isEmpty && fraction.isEmpty then .lonePoint
        else .number (numberOf (whole ++ '.' :: fraction)),
      (whole ++ '.' :: fraction).length) := by
  have htake : (whole ++ '.' :: (fraction ++ rest)).takeWhile isDigit = whole :=
    takeWhile_eq_left (fun c hc => h c (List.mem_append_left _ hc)) fun c hc => by
      cases hc
      rfl
  have hfraction : (fraction ++ rest).takeWhile isDigit = fraction :=
    takeWhile_eq_left (fun c hc => h c (List.mem_append_right _ hc)) hrest
  have hlength : whole.length + 1 + fraction.length = (whole ++ '.' :: fraction).length := by
    rw [List.length_append, List.length_cons]
    omega
  rw [leadingNumber, htake, List.drop_left]
  simp only [hfraction, hlength, numberOf_point h]
  split <;> rfl

theorem leadingNumber_of_isNumber {w : List Char} (h : IsNumber w)
    (hlongest : ∀ c ∈ rest.head?, ¬ IsNumber (w ++ [c])) :
    (leadingNumber (w ++ rest) : Lexeme α × Nat) = (.number (numberOf w), w.length) := by
  rcases h.parts with ⟨hdigits, hne⟩ | ⟨whole, fraction, rfl, hdigits, hne⟩
  · refine leadingNumber_whole hdigits hne fun c hc => ⟨?_, ?_⟩
    · by_contra hdigit
      rw [Bool.not_eq_false] at hdigit
      refine hlongest c hc (isNumber_whole (fun d hd => ?_) (by simp))
      rcases List.mem_append.1 hd with hd | hd
      · exact hdigits d hd
      · rwa [List.mem_singleton.1 hd]
    · rintro rfl
      exact hlongest '.' hc (isNumber_point (by simpa using hdigits) (by simpa using hne))
  · rw [List.append_assoc, List.cons_append, leadingNumber_point hdigits fun c hc => ?_]
    · have hparts : ¬ (whole.isEmpty && fraction.isEmpty) = true := by simpa using hne
      rw [if_neg hparts]
    · by_contra hdigit
      rw [Bool.not_eq_false] at hdigit
      refine hlongest c hc ?_
      rw [List.append_assoc, List.cons_append]
      refine isNumber_point (fun d hd => ?_) (by simp)
      rw [← List.append_assoc] at hd
      rcases List.mem_append.1 hd with hd | hd
      · exact hdigits d hd
      · rwa [List.mem_singleton.1 hd]

theorem not_isNumber_append {w : List Char} {c : Char} (hc : isDigit c = false)
    (hpoint : c = '.' → '.' ∈ w) : ¬ IsNumber (w ++ [c]) := by
  intro h
  obtain rfl : c = '.' := (h.chars c (by simp)).resolve_left (by simp [hc])
  have hcount := h.points
  have hpos := List.count_pos_iff.2 (hpoint rfl)
  rw [List.count_append, List.count_singleton_self] at hcount
  omega

/-- What the reader finds at a digit or a point is a longest number, unless the point stands
alone. -/
theorem spells_of_leadingNumber {c : Char} (hc : isDigit c = true ∨ c = '.') {l : Lexeme α}
    {n : Nat} (h : leadingNumber (c :: rest) = (l, n)) (hl : l.IsProper) :
    ∃ w more, c :: rest = w ++ more ∧ n = w.length ∧ Spells l w more := by
  obtain ⟨whole, tail, heq, hwhole, htail⟩ := exists_longest isDigit (c :: rest)
  by_cases hpoint : tail.head? = some '.'
  · obtain ⟨after, rfl⟩ : ∃ after, tail = '.' :: after := by
      cases tail with
      | nil => cases hpoint
      | cons d after =>
        cases hpoint
        exact ⟨after, rfl⟩
    obtain ⟨fraction, more, rfl, hfraction, hmore⟩ := exists_longest isDigit after
    have hdigits : ∀ d ∈ whole ++ fraction, isDigit d = true := fun d hd =>
      (List.mem_append.1 hd).elim (hwhole d) (hfraction d)
    rw [heq, leadingNumber_point hdigits hmore] at h
    obtain ⟨rfl, rfl⟩ := Prod.mk.inj h
    refine ⟨whole ++ '.' :: fraction, more, by rw [heq, List.append_assoc, List.cons_append],
      rfl, ?_⟩
    by_cases hparts : (whole.isEmpty && fraction.isEmpty) = true
    · rw [if_pos hparts] at hl
      exact hl.elim
    · rw [if_neg hparts]
      exact .number (isNumber_point hdigits (by simpa using hparts)) fun d hd =>
        not_isNumber_append (hmore d hd) fun _ => by simp
  · have hstop : ∀ d ∈ tail.head?, isDigit d = false ∧ d ≠ '.' := by
      refine fun d hd => ⟨htail d hd, ?_⟩
      rintro rfl
      exact hpoint hd
    have hne : whole ≠ [] := by
      rintro rfl
      obtain ⟨hdigit, hne⟩ := hstop c (by rw [← List.nil_append tail, ← heq]; rfl)
      rcases hc with hc | hc
      · rw [hc] at hdigit
        cases hdigit
      · exact hne hc
    rw [heq, leadingNumber_whole hwhole hne hstop] at h
    obtain ⟨rfl, rfl⟩ := Prod.mk.inj h
    exact ⟨whole, tail, heq, rfl, .number (isNumber_whole hwhole hne) fun d hd =>
      not_isNumber_append (hstop d hd).1 fun heq => absurd heq (hstop d hd).2⟩

end

/-! ### The reader of tokens -/

section

variable {c : Char} {rest w : List Char} {l : Lexeme α}

theorem leading_of_spells (h : Spells l w rest) : ∃ c more, w = c :: more ∧
    isBlank c = false ∧ leading c (more ++ rest) = (l, w.length) := by
  cases h with
  | number h hlongest =>
    have hread := leadingNumber_of_isNumber (α := α) h hlongest
    cases w with
    | nil =>
      obtain ⟨c, hc, _⟩ := h.digit
      cases hc
    | cons c more =>
      have hc : isDigit c = true ∨ c = '.' := h.chars c List.mem_cons_self
      refine ⟨c, more, rfl, ?_, ?_⟩
      · rcases hc with hc | rfl
        · exact isBlank_of_isDigit hc
        · rfl
      · rw [leading, if_pos (by simpa using hc)]
        exact hread
  | @text quote content _ hquote h =>
    have htake : (content ++ [quote] ++ rest).takeWhile (· != quote) = content := by
      rw [List.append_assoc]
      refine takeWhile_eq_left (fun d hd => bne_iff_ne.2 ?_) fun d hd => ?_
      · rintro rfl
        exact h hd
      · cases hd
        simp
    have hnumber : ¬ (isDigit quote || quote == '.') = true := by
      rcases hquote with rfl | rfl <;> decide
    refine ⟨quote, content ++ [quote], rfl, ?_, ?_⟩
    · rcases hquote with rfl | rfl <;> rfl
    · rw [leading, if_neg hnumber, if_pos (by simpa using hquote), leadingText,
        htake, if_pos (by simp)]
      simp
  | @word c more _ hc h hlongest =>
    have hword : isWordChar c = true := h c List.mem_cons_self
    have htake : leadingWord (c :: (more ++ rest)) = c :: more := takeWhile_eq_left h hlongest
    have hne : ∀ d, isWordChar d = false → c ≠ d := by
      rintro d hd rfl
      rw [hword] at hd
      cases hd
    have hpoint := hne '.' (by decide +kernel)
    have hdouble := hne '"' (by decide +kernel)
    have hsingle := hne '\'' (by decide +kernel)
    refine ⟨c, more, rfl, isBlank_of_isWordChar hword, ?_⟩
    rw [leading, if_neg (by simp [hc, hpoint]), if_neg (by simp [hdouble, hsingle]), if_pos hword,
      htake]
  | @mark c _ h =>
    refine ⟨c, [], rfl, isBlank_of_mem_marks c h, ?_⟩
    rw [leading, isDigit_of_mem_marks c h, isQuote_of_mem_marks c h, isWordChar_of_mem_marks c h]
    rfl

theorem spells_of_leading {n : Nat} (h : leading c rest = (l, n)) (hl : l.IsProper) :
    ∃ w more, c :: rest = w ++ more ∧ n = w.length ∧ Spells l w more := by
  rw [leading] at h
  split_ifs at h with hnumber hquote hword
  · exact spells_of_leadingNumber (by simpa using hnumber) h hl
  · obtain ⟨content, tail, rfl, hcontent, htail⟩ := exists_longest (· != c) rest
    rw [leadingText, takeWhile_eq_left hcontent htail] at h
    cases tail with
    | nil =>
      -- no second quote
      rw [List.append_nil, if_neg (Nat.lt_irrefl _)] at h
      cases h
      exact hl.elim
    | cons d more =>
      obtain rfl : d = c := by simpa using htail d rfl
      rw [if_pos (by simp)] at h
      cases h
      refine ⟨d :: (content ++ [d]), more, by simp, by simp, .text (by simpa using hquote) ?_⟩
      intro hmem
      simpa using hcontent d hmem
  · obtain ⟨w, more, heq, hw, hmore⟩ := exists_longest isWordChar (c :: rest)
    rw [leadingWord, heq, takeWhile_eq_left hw hmore] at h
    cases h
    cases w with
    | nil =>
      rw [List.nil_append] at heq
      have hc := hmore c (by rw [← heq]; rfl)
      rw [hword] at hc
      cases hc
    | cons d w =>
      obtain ⟨rfl, -⟩ := List.cons.inj heq
      refine ⟨c :: w, more, heq, rfl, .word ?_ hw hmore⟩
      simp only [Bool.or_eq_true, not_or, Bool.not_eq_true] at hnumber
      exact hnumber.1
  · cases h
    exact ⟨[c], rest, rfl, rfl, .mark hl⟩

/-! ### Whole sources -/

theorem skipBlanks_append {blanks tail : List Char} (h : ∀ c ∈ blanks, isBlank c = true)
    (htail : ∀ c ∈ tail.head?, isBlank c = false) : skipBlanks (blanks ++ tail) = tail := by
  rw [skipBlanks, List.dropWhile_append_of_pos h]
  cases tail with
  | nil => rfl
  | cons c tail => exact List.dropWhile_cons_of_neg (by simp [htail c rfl])

theorem ofChars_of_nil {cs : List Char} (h : skipBlanks cs = []) :
    (ofChars cs : List (Token α)) = [] := by
  rw [ofChars]
  split
  · rfl
  · next heq =>
    rw [h] at heq
    cases heq

theorem ofChars_of_cons {cs : List Char} {n : Nat} (h : skipBlanks cs = c :: rest)
    (hlead : leading c rest = (l, n)) :
    ofChars cs = ⟨l, c :: rest⟩ :: ofChars (rest.drop (n - 1)) := by
  rw [ofChars]
  split
  · next heq =>
    rw [h] at heq
    cases heq
  · next heq =>
    rw [h] at heq
    cases heq
    rw [hlead]

theorem map_lexeme_of_spelled {ls : List (Lexeme α)} {cs : List Char} (h : Spelled ls cs) :
    (ofChars cs).map lexeme = ls := by
  induction h with
  | nil h => rw [ofChars_of_nil (List.dropWhile_eq_nil_iff.2 h), List.map_nil]
  | @cons blanks w rest l ls h hl _ ih =>
    obtain ⟨c, more, rfl, hblank, hlead⟩ := leading_of_spells hl
    have hskip : skipBlanks (blanks ++ (c :: more ++ rest)) = c :: (more ++ rest) :=
      skipBlanks_append h fun d hd => by
        cases hd
        exact hblank
    rw [ofChars_of_cons hskip hlead, List.map_cons, List.length_cons, Nat.add_sub_cancel,
      List.drop_left, ih]

theorem spelled_of_isProper (cs : List Char)
    (h : ∀ t ∈ (ofChars cs : List (Token α)), t.lexeme.IsProper) :
    Spelled ((ofChars cs : List (Token α)).map lexeme) cs := by
  induction hlen : cs.length using Nat.strongRecOn generalizing cs with
  | ind len ih =>
    obtain ⟨blanks, tail, rfl, hblanks, htail⟩ := exists_longest isBlank cs
    have hskip := skipBlanks_append hblanks htail
    cases tail with
    | nil =>
      rw [ofChars_of_nil hskip, List.append_nil]
      exact .nil hblanks
    | cons c rest =>
      obtain ⟨⟨l, n⟩, hlead⟩ : ∃ r : Lexeme α × Nat, leading c rest = r := ⟨_, rfl⟩
      rw [ofChars_of_cons hskip hlead] at h ⊢
      obtain ⟨hl, hrest⟩ := List.forall_mem_cons.1 h
      obtain ⟨w, more, heq, rfl, hspells⟩ := spells_of_leading hlead hl
      obtain ⟨d, w, rfl, -, -⟩ := leading_of_spells hspells
      rw [List.cons_append] at heq
      obtain ⟨rfl, rfl⟩ := List.cons.inj heq
      rw [List.length_cons, Nat.add_sub_cancel, List.drop_left] at hrest ⊢
      refine .cons hblanks hspells (ih more.length ?_ more hrest rfl)
      rw [← hlen]
      simp only [List.length_append, List.length_cons]
      omega

/-- **The lexemes of a source are those that spell it**, where they are no stray characters. -/
theorem map_lexeme_eq_iff {ls : List (Lexeme α)} {cs : List Char} (h : ∀ l ∈ ls, l.IsProper) :
    (ofChars cs).map lexeme = ls ↔ Spelled ls cs := by
  refine ⟨?_, map_lexeme_of_spelled⟩
  rintro rfl
  exact spelled_of_isProper cs fun t ht => h _ (List.mem_map_of_mem ht)

end

end Token

end FactorPortfolio
