import FactorPortfolio.Proofs.Formula.FirstFault

/-!
# Where the caret stands below a rejected formula

A source that is rejected is shown with a line below it that ends in a caret.  This line has a space
for each byte in front of the fault, whereas a column is a character.  So the caret stands below the
fault if and only if each character in front of the fault is of one byte, and else to the right:

* `hasCaretBehind_iff`: below a source without line breaks, the caret is behind as many spaces as
  the position says.
* `byteCount_eq_length_iff`: there are as many bytes as characters if and only if each character is
  of one byte.
* `narrow_of_spells`: the lexemes of a formula are spelled with characters of one byte, apart from
  what texts say.  Since what stands in front of a fault is the start of a formula, its wide
  characters are blanks and parts of quoted texts (`narrow_of_spelled`).

`caret_of_parse_eq_error` puts this together.  In `caret_beside_fault` the caret is one column off.
-/

namespace FactorPortfolio

/-! ### What is shown -/

def Text.lines (s : String) : List String := (s.toList.splitOn '\n').map String.ofList

theorem Text.lines_append {s : String} (h : '\n' ∉ s.toList) (rest : String) :
    lines (s ++ ("\n" ++ rest)) = s :: lines rest := by
  have hbreak : "\n".toList = ['\n'] := rfl
  rw [lines, String.toList_append, String.toList_append, hbreak, List.singleton_append,
    List.splitOn_append_cons_self, List.splitOn_eq_singleton h]
  simp [lines]

namespace ParseError

def caretBehind (n : Nat) : String := String.ofList (List.replicate n ' ') ++ "^"

theorem caretBehind_inj {m n : Nat} : caretBehind m = caretBehind n ↔ m = n := by
  refine ⟨fun h => ?_, fun h => by rw [h]⟩
  have hlength := congrArg String.length h
  simpa [caretBehind] using hlength

theorem newline_not_mem_caretBehind (n : Nat) : '\n' ∉ (caretBehind n).toList := by
  simp [caretBehind]

/-- The source, the caret, and what the message says. -/
theorem lines_inContext (fault : ParseError) {source : String} (h : '\n' ∉ source.toList) :
    Text.lines (fault.inContext source) =
      source :: caretBehind fault.position :: Text.lines fault.message := by
  have hcaret : "^\n" = "^" ++ "\n" := rfl
  have hparts : fault.inContext source =
      source ++ ("\n" ++ (caretBehind fault.position ++ ("\n" ++ fault.message))) := by
    simp only [inContext, caretBehind, hcaret, String.append_assoc]
  rw [hparts, Text.lines_append h, Text.lines_append (newline_not_mem_caretBehind _)]

/-- The second line that is shown is a caret behind `n` spaces. -/
def HasCaretBehind (fault : ParseError) (source : String) (n : Nat) : Prop :=
  (Text.lines (fault.inContext source))[1]? = some (caretBehind n)

theorem hasCaretBehind_iff (fault : ParseError) {source : String} (h : '\n' ∉ source.toList)
    (n : Nat) : fault.HasCaretBehind source n ↔ fault.position = n := by
  rw [HasCaretBehind, fault.lines_inContext h, List.getElem?_cons_succ, List.getElem?_cons_zero,
    Option.some_inj, caretBehind_inj]

end ParseError

/-! ### Characters of one byte -/

theorem Text.utf8Size_of_isDigit {c : Char} (h : isDigit c = true) : c.utf8Size = 1 := by
  obtain ⟨-, hnine⟩ := toNat_of_isDigit h
  refine Char.utf8Size_eq_one_iff.2 (UInt32.le_iff_toNat_le.2 ?_)
  exact hnine.trans (by decide)

namespace Parser

theorem length_le_byteCount (cs : List Char) : cs.length ≤ byteCount cs := by
  induction cs with
  | nil => exact le_rfl
  | cons c cs ih =>
    have hpos := c.utf8Size_pos
    rw [List.length_cons, byteCount]
    omega

theorem byteCount_eq_length_iff (cs : List Char) :
    byteCount cs = cs.length ↔ ∀ c ∈ cs, c.utf8Size = 1 := by
  induction cs with
  | nil => simp [byteCount]
  | cons c cs ih =>
    have hpos := c.utf8Size_pos
    have hle := length_le_byteCount cs
    rw [List.forall_mem_cons, ← ih, byteCount, List.length_cons]
    omega

/-! ### Wide characters of a formula -/

variable {α : Type} [Scalar α]

open Token (Spells Spelled)

/-- The lexeme is a word of characters of one byte, or no word. -/
def IsNarrow : Lexeme α → Prop
  | .word name => name.toList.all (·.utf8Size == 1) = true
  | _ => True

/-- The lexemes of a formula are narrow: its words are names, and the parser stops at any other. -/
theorem Phrase.isNarrow {rank : Rank} {ls : List (Lexeme α)} {e : Expr α} (h : Phrase rank ls e) :
    ∀ l ∈ ls, IsNarrow l := by
  have hcurrent : Expr.currentDateName.toList.all (·.utf8Size == 1) = true := by decide +kernel
  have hname : ∀ f : Function, f.name.toList.all (·.utf8Size == 1) = true := by
    intro f
    cases f <;> decide +kernel
  exact h.forall_mem (fun _ => trivial) (fun _ => trivial) hcurrent hname fun _ _ => trivial

theorem utf8Size_of_mem_marks : ∀ c ∈ Token.marks, c.utf8Size = 1 :=
  Token.forall_mem_marks.2 (by decide)

theorem narrow_of_spells {l : Lexeme α} {w rest : List Char} (h : Spells l w rest)
    (hl : IsNarrow l) : ∀ c ∈ w, c.utf8Size = 1 ∨ ∃ s, l = .text s ∧ c ∈ s.toList := by
  intro c hc
  cases h with
  | number hw _ =>
    rcases hw.chars c hc with hdigit | rfl
    · exact .inl (Text.utf8Size_of_isDigit hdigit)
    · exact .inl rfl
  | @text quote content _ hquote _ =>
    have hone : quote.utf8Size = 1 := by
      rcases hquote with rfl | rfl <;> rfl
    simp only [List.mem_cons, List.mem_append, List.not_mem_nil, or_false] at hc
    rcases hc with rfl | hc | rfl
    · exact .inl hone
    · exact .inr ⟨_, rfl, by rwa [String.toList_ofList]⟩
    · exact .inl hone
  | word _ _ _ =>
    rw [IsNarrow, String.toList_ofList] at hl
    exact .inl (beq_iff_eq.1 (List.all_eq_true.1 hl c hc))
  | mark hmark =>
    obtain rfl := List.mem_singleton.1 hc
    exact .inl (utf8Size_of_mem_marks c hmark)

theorem narrow_of_spelled {ls : List (Lexeme α)} {cs : List Char} (h : Spelled ls cs)
    (hls : ∀ l ∈ ls, IsNarrow l) : ∀ c ∈ cs,
      c.utf8Size = 1 ∨ Text.isBlank c = true ∨ ∃ s, .text s ∈ ls ∧ c ∈ s.toList := by
  induction h with
  | nil hblanks => exact fun c hc => .inr (.inl (hblanks c hc))
  | cons hblanks hl _ ih =>
    obtain ⟨hnarrow, hls⟩ := List.forall_mem_cons.1 hls
    intro c hc
    rcases List.mem_append.1 hc with hc | hc
    · exact .inr (.inl (hblanks c hc))
    · rcases List.mem_append.1 hc with hc | hc
      · rcases narrow_of_spells hl hnarrow c hc with hone | ⟨s, rfl, hs⟩
        · exact .inl hone
        · exact .inr (.inr ⟨s, List.mem_cons_self, hs⟩)
      · rcases ih hls c hc with hone | hblank | ⟨s, hmem, hs⟩
        · exact .inl hone
        · exact .inr (.inl hblank)
        · exact .inr (.inr ⟨s, List.mem_cons_of_mem _ hmem, hs⟩)

/-! ### The caret -/

/-- **Where the caret stands.**  Below a source of one line that is rejected there is a caret behind
as many spaces as there are bytes in front of the fault.  These are never fewer than the characters
there, and as many if and only if each of them is of one byte.  Those that are not are blanks and
parts of quoted texts. -/
theorem caret_of_parse_eq_error {source : String} {fault : ParseError}
    (hline : '\n' ∉ source.toList)
    (h : (Expr.parse source : Except ParseError (Expr α)) = .error fault) :
    ∃ before after : String, source = before ++ after ∧ before.utf8ByteSize = fault.position ∧
      fault.HasCaretBehind source fault.position ∧ before.length ≤ fault.position ∧
      (fault.HasCaretBehind source before.length ↔ ∀ c ∈ before.toList, c.utf8Size = 1) ∧
      ∀ c ∈ before.toList, c.utf8Size = 1 ∨ Text.isBlank c = true ∨
        ∃ s, .text s ∈ (Token.ofChars before.toList : List (Token α)).map Token.lexeme ∧
          c ∈ s.toList := by
  obtain ⟨before, after, ls, hsource, hposition, hleads, ms, _, e, _, hphrase⟩ :=
    exists_split_of_parse_eq_error h
  have hspelled : Spelled (ls ++ []) (before.toList ++ []) := hleads (by simp) (.nil (by simp))
  rw [List.append_nil, List.append_nil] at hspelled
  have hbytes : fault.position = byteCount before.toList := by
    rw [← hposition, ← utf8ByteSize_ofList, String.ofList_toList]
  have hnarrow : ∀ l ∈ ls, IsNarrow l := fun l hl =>
    hphrase.isNarrow l (List.mem_append_left _ hl)
  refine ⟨before, after, hsource, hposition, (fault.hasCaretBehind_iff hline _).2 rfl, ?_, ?_, ?_⟩
  · rw [hbytes, ← String.length_toList]
    exact length_le_byteCount _
  · rw [fault.hasCaretBehind_iff hline, hbytes, ← String.length_toList]
    exact byteCount_eq_length_iff _
  · rw [Token.map_lexeme_of_spelled hspelled]
    exact narrow_of_spelled hspelled hnarrow

/-- A wide letter behind the fault does not move the caret. -/
theorem caret_of_parse_unknownWord :
    '\n' ∉ "'a' + foo('ü')".toList ∧
      (Expr.parse "'a' + foo('ü')" : Except ParseError (Expr Float)) =
        .error ⟨.unknownWord "foo", 6⟩ ∧
      ∃ before after : String, "'a' + foo('ü')" = before ++ after ∧ before.utf8ByteSize = 6 ∧
        ParseError.HasCaretBehind ⟨.unknownWord "foo", 6⟩ "'a' + foo('ü')" 6 ∧ before.length ≤ 6 ∧
        (ParseError.HasCaretBehind ⟨.unknownWord "foo", 6⟩ "'a' + foo('ü')" before.length ↔
          ∀ c ∈ before.toList, c.utf8Size = 1) ∧
        ∀ c ∈ before.toList, c.utf8Size = 1 ∨ Text.isBlank c = true ∨
          ∃ s, .text s ∈ (Token.ofChars before.toList : List (Token Float)).map Token.lexeme ∧
            c ∈ s.toList := by
  have hline : '\n' ∉ "'a' + foo('ü')".toList := by decide
  have hrun : run (.start : State Float) (Token.ofChars "'a' + foo('ü')".toList) =
      .error (.unknownWord "foo", "foo('ü')".toList) := by cbv
  have hfault : (Expr.parse "'a' + foo('ü')" : Except ParseError (Expr Float)) =
      .error ⟨.unknownWord "foo", 6⟩ := by
    rw [Expr.parse, hrun]
    rfl
  exact ⟨hline, hfault, caret_of_parse_eq_error hline hfault⟩

/-- **A wide letter in front of the fault moves the caret beside it**: behind six characters the
fault is found, and behind seven spaces the caret stands. -/
theorem caret_beside_fault :
    '\n' ∉ "'ü' + foo".toList ∧
      (Expr.parse "'ü' + foo" : Except ParseError (Expr Float)) =
        .error ⟨.unknownWord "foo", 7⟩ ∧
      "'ü' + foo" = "'ü' + " ++ "foo" ∧ "'ü' + ".utf8ByteSize = 7 ∧ "'ü' + ".length = 6 ∧
      ParseError.HasCaretBehind ⟨.unknownWord "foo", 7⟩ "'ü' + foo" 7 ∧
      ¬ ParseError.HasCaretBehind ⟨.unknownWord "foo", 7⟩ "'ü' + foo" 6 := by
  have hline : '\n' ∉ "'ü' + foo".toList := by decide
  have hrun : run (.start : State Float) (Token.ofChars "'ü' + foo".toList) =
      .error (.unknownWord "foo", "foo".toList) := by cbv
  have hfault : (Expr.parse "'ü' + foo" : Except ParseError (Expr Float)) =
      .error ⟨.unknownWord "foo", 7⟩ := by
    rw [Expr.parse, hrun]
    rfl
  have hcaret := ParseError.hasCaretBehind_iff ⟨.unknownWord "foo", 7⟩ hline
  refine ⟨hline, hfault, rfl, by decide +kernel, by decide +kernel, (hcaret 7).2 rfl, fun h => ?_⟩
  cases (hcaret 6).1 h

end Parser

end FactorPortfolio
