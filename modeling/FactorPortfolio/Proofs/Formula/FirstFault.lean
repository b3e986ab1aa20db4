import Mathlib.Tactic.Common
import FactorPortfolio.Proofs.Formula.Rendering

/-!
# A rejected formula is rejected at its first fault

The position of a fault cuts the source in two, and the part before it is the start of a formula:

* `exists_stop`: a run that fails has read the tokens before the fault, and the fault lies where the
  next one begins.
* `exists_leads`: what stands in front of a token spells the lexemes before it, and does so whatever
  follows behind a blank (`Leads`).
* `exists_reads_ending`: from every state there is a way to end, which is the operand or the
  arguments that are missing and a bracket for each one that is open.

So what stands before the fault and such an ending are a formula, and no formula goes on with the
lexeme that is found there (`exists_first_fault`).  `position_of_parse_eq_error` is the first half
of this for the position that is reported.
-/

namespace FactorPortfolio

open Text

variable {α : Type} [Scalar α]

/-! ### Sources behind which a blank may follow -/

namespace Token

/-- Tokens with these lexemes, of no source. -/
def bare (ls : List (Lexeme α)) : List (Token α) := ls.map fun l => ⟨l, []⟩

omit [Scalar α] in
@[simp] theorem map_lexeme_bare (ls : List (Lexeme α)) : (bare ls).map lexeme = ls := by
  rw [bare, List.map_map]
  exact List.map_id ls

def sourceOf (ts : List (Token α)) : List Char := ts.head?.elim [] source

/-- The characters spell the lexemes, whatever follows behind a blank. -/
def Leads (ls : List (Lexeme α)) (cs : List Char) : Prop :=
  ∀ {ms : List (Lexeme α)} {rest : List Char}, (∀ c ∈ rest.head?, isBlank c = true) →
    Spelled ms rest → Spelled (ls ++ ms) (cs ++ rest)

section

variable {l : Lexeme α} {ls : List (Lexeme α)} {blanks w cs rest rest' : List Char}

theorem Spells.congr (h : Spells l w rest)
    (hrest : ∀ c ∈ rest'.head?, c ∈ rest.head? ∨ isBlank c = true) : Spells l w rest' := by
  cases h with
  | number h hlongest =>
    refine .number h fun c hc => ?_
    rcases hrest c hc with hc | hblank
    · exact hlongest c hc
    · refine not_isNumber_append ?_ ?_
      · by_contra hdigit
        rw [isBlank_of_isDigit (by simpa using hdigit)] at hblank
        cases hblank
      · rintro rfl
        cases hblank
  | text hquote h => exact .text hquote h
  | word hc h hlongest =>
    refine .word hc h fun c hc => ?_
    rcases hrest c hc with hc | hblank
    · exact hlongest c hc
    · by_contra hword
      rw [isBlank_of_isWordChar (by simpa using hword)] at hblank
      cases hblank
  | mark h => exact .mark h

theorem leads_blanks (h : ∀ c ∈ blanks, isBlank c = true) :
    Leads ([] : List (Lexeme α)) blanks := by
  intro ms rest _ hms
  rw [List.nil_append]
  cases hms with
  | nil hrest => exact .nil (List.forall_mem_append.2 ⟨h, hrest⟩)
  | cons hrest hl hls =>
    rw [← List.append_assoc]
    exact .cons (List.forall_mem_append.2 ⟨h, hrest⟩) hl hls

theorem Leads.cons (hblanks : ∀ c ∈ blanks, isBlank c = true) (hl : Spells l w (cs ++ rest))
    (h : Leads ls cs) : Leads (l :: ls) (blanks ++ (w ++ cs)) := by
  intro ms rest' hrest' hms
  rw [List.append_assoc, List.append_assoc, List.cons_append]
  refine .cons hblanks (hl.congr fun c hc => ?_) (h hrest' hms)
  cases cs with
  | nil => exact .inr (hrest' c hc)
  | cons d cs => exact .inl hc

theorem ofChars_congr {cs cs' : List Char} (h : skipBlanks cs = skipBlanks cs') :
    (ofChars cs : List (Token α)) = ofChars cs' := by
  cases hskip : skipBlanks cs' with
  | nil => rw [ofChars_of_nil hskip, ofChars_of_nil (h.trans hskip)]
  | cons c rest => rw [ofChars_of_cons hskip rfl, ofChars_of_cons (h.trans hskip) rfl]

/-- **What stands in front of a token** spells the lexemes before it, and the tokens from it on are
those of what is left. -/
theorem exists_leads {ts ts' : List (Token α)} (h : ofChars cs = ts ++ ts')
    (hproper : ∀ t ∈ ts, t.lexeme.IsProper) :
    ∃ done, cs = done ++ sourceOf ts' ∧ Leads (ts.map lexeme) done ∧
      ofChars (sourceOf ts') = ts' := by
  induction ts generalizing cs with
  | nil =>
    obtain ⟨blanks, tail, rfl, hblanks, htail⟩ := exists_longest isBlank cs
    have hskip := skipBlanks_append hblanks htail
    have hskip' : skipBlanks ([] ++ tail) = tail := skipBlanks_append (by simp) htail
    have hsource : sourceOf ts' = tail := by
      rw [List.nil_append] at h
      cases tail with
      | nil =>
        rw [← h, ofChars_of_nil hskip]
        rfl
      | cons c tail =>
        rw [← h, ofChars_of_cons hskip rfl]
        rfl
    refine ⟨blanks, by rw [hsource], leads_blanks hblanks, ?_⟩
    rw [hsource, ← List.nil_append ts', ← h, ofChars_congr (hskip.trans hskip'.symm),
      List.nil_append]
  | cons t ts ih =>
    obtain ⟨blanks, tail, rfl, hblanks, htail⟩ := exists_longest isBlank cs
    have hskip := skipBlanks_append hblanks htail
    cases tail with
    | nil =>
      rw [ofChars_of_nil hskip] at h
      cases h
    | cons c tail =>
      obtain ⟨⟨l, n⟩, hlead⟩ : ∃ r : Lexeme α × Nat, leading c tail = r := ⟨_, rfl⟩
      rw [ofChars_of_cons hskip hlead, List.cons_append] at h
      obtain ⟨rfl, hts⟩ := List.cons.inj h
      obtain ⟨hl, hrest⟩ := List.forall_mem_cons.1 hproper
      obtain ⟨w, more, heq, rfl, hspells⟩ := spells_of_leading hlead hl
      obtain ⟨d, w, rfl, -, -⟩ := leading_of_spells hspells
      rw [List.cons_append] at heq
      obtain ⟨rfl, rfl⟩ := List.cons.inj heq
      rw [List.length_cons, Nat.add_sub_cancel, List.drop_left] at hts
      obtain ⟨done, rfl, hdone, hleft⟩ := ih hts hrest
      exact ⟨blanks ++ (c :: w ++ done), by simp, hdone.cons hblanks hspells, hleft⟩

end

end Token

namespace Parser

open Token (Spelled Leads sourceOf)

/-! ### Where a run stops -/

section

variable {s s' : State α} {t : Token α} {ts : List (Token α)} {fault : Fault}

theorem run_append (h : ts.foldlM step s = .ok s') (ts' : List (Token α)) :
    run s (ts ++ ts') = run s' ts' := by
  rw [run, List.foldlM_append, h]
  rfl

theorem source_of_stepOperand_eq_error {p : Pending α} {outer : Outer α}
    (h : stepOperand p outer t = .error fault) : fault.2 = t.source := by
  obtain ⟨l, source⟩ := t
  cases l with
  | number x => cases h
  | lonePoint =>
    cases h
    rfl
  | text s => cases h
  | openText =>
    cases h
    rfl
  | word w =>
    simp only [stepOperand] at h
    split at h
    · cases h
    · split at h <;> cases h
      rfl
  | mark c =>
    simp only [stepOperand] at h
    split at h
    · cases h
    · split at h
      · cases h
      · split at h <;> cases h
        rfl

theorem source_of_stepEnd_eq_error {e : Expr α} {outer : Outer α}
    (h : stepEnd e outer t = .error fault) : fault.2 = t.source := by
  rw [stepEnd.eq_def] at h
  split at h <;> cases h <;> rfl

theorem source_of_step_eq_error (h : step s t = .error fault) : fault.2 = t.source := by
  cases s with
  | operand p outer => exact source_of_stepOperand_eq_error h
  | opening f p outer =>
    simp only [step, stepOpening] at h
    split at h <;> cases h
    rfl
  | operator e p outer =>
    simp only [step, stepOperator] at h
    split at h
    · split at h
      · cases h
      · cases h
      · exact source_of_stepEnd_eq_error h
    · exact source_of_stepEnd_eq_error h

omit [Scalar α] in
theorem source_of_finish_eq_error (h : finish s = .error fault) : fault.2 = [] := by
  rw [finish.eq_def] at h
  split at h <;> cases h <;> rfl

/-- **A run that fails** has read the tokens before one that the state does not take. -/
theorem exists_stop (h : run s ts = .error fault) :
    ∃ (done left : List (Token α)) (s' : State α), ts = done ++ left ∧
      done.foldlM step s = .ok s' ∧ fault.2 = sourceOf left ∧
      ∀ t ∈ left.head?, step s' t = .error fault := by
  induction ts generalizing s with
  | nil => exact ⟨[], [], s, rfl, rfl, source_of_finish_eq_error h, by simp⟩
  | cons t ts ih =>
    cases hstep : step s t with
    | error fault' =>
      rw [run, List.foldlM_cons, hstep] at h
      cases h
      refine ⟨[], t :: ts, s, rfl, rfl, source_of_step_eq_error hstep, ?_⟩
      rintro _ ⟨⟩
      exact hstep
    | ok s₁ =>
      rw [run, List.foldlM_cons, hstep] at h
      obtain ⟨done, left, s', rfl, hdone, hleft⟩ := ih h
      exact ⟨t :: done, left, s', rfl, by rw [List.foldlM_cons, hstep]; exact hdone, hleft⟩

end

/-! ### Ways to end -/

/-- The brackets that close what is open. -/
def closing (outer : Outer α) : List Char := List.replicate outer.length ')'

theorem exists_reads_closing (outer : Outer α) (e : Expr α) (p : Pending α) : ∃ e' p',
    Reads (.operator e p outer) ((closing outer).map .mark) (.operator e' p' []) := by
  induction outer generalizing e p with
  | nil => exact ⟨e, p, reads_nil _⟩
  | cons o outer ih =>
    obtain ⟨enclosure, p'⟩ := o
    cases enclosure with
    | group =>
      obtain ⟨e₁, p₁, hread⟩ := ih (p'.signed (p.total e)) p'
      exact ⟨e₁, p₁, reads_cons step_closeGroup hread⟩
    | call f args =>
      obtain ⟨e₁, p₁, hread⟩ := ih (p'.signed (.call f (args ++ [p.total e]))) p'
      exact ⟨e₁, p₁, reads_cons step_closeCall hread⟩

theorem spelled_closing (outer : Outer α) :
    Spelled ((closing outer).map .mark : List (Lexeme α)) (closing outer) := by
  induction outer with
  | nil => exact .nil (by simp [closing])
  | cons o outer ih => exact spelled_mark (by decide) ih

/-- **From every state there is a way to end**: with the operand or the arguments that are missing,
and a bracket for each one that is open. -/
theorem exists_reads_ending (s : State α) : ∃ (ls : List (Lexeme α)) (cs : List Char) (e : Expr α)
    (p : Pending α), Spelled ls cs ∧ Reads s ls (.operator e p []) := by
  cases s with
  | operand p outer =>
    obtain ⟨e, p', hread⟩ := exists_reads_closing outer (p.signed (.text "")) p
    have htext : Token.Spells (.text "" : Lexeme α) ('"' :: ([] ++ ['"'])) (closing outer) :=
      .text (.inl rfl) List.not_mem_nil
    exact ⟨_, _, e, p', spelled_lexeme htext (spelled_closing outer),
      reads_cons (fun _ => rfl) hread⟩
  | opening f p outer =>
    obtain ⟨e, p', hread⟩ := exists_reads_closing outer (p.signed (.call f [])) p
    have hspelled : Spelled (.mark '(' :: .mark ')' :: (closing outer).map .mark : List (Lexeme α))
        ('(' :: ')' :: closing outer) :=
      spelled_mark (by decide) (spelled_mark (by decide) (spelled_closing outer))
    exact ⟨_, _, e, p', hspelled, reads_cons (fun _ => rfl) (reads_cons (fun _ => rfl) hread)⟩
  | operator e p outer =>
    obtain ⟨e', p', hread⟩ := exists_reads_closing outer e p
    exact ⟨_, _, e', p', spelled_closing outer, hread⟩

theorem phrase_of_reads {ts : List (Token α)} {ls : List (Lexeme α)} {s : State α} {e : Expr α}
    {p : Pending α} (hts : ts.foldlM step .start = .ok s) (h : Reads s ls (.operator e p [])) :
    Phrase .sum (ts.map Token.lexeme ++ ls) (p.total e) := by
  have hrun : run .start (ts ++ Token.bare ls) = .ok (p.total e) := by
    rw [run_append hts, run, h _ (Token.map_lexeme_bare ls)]
    rfl
  have hphrase := phrase_of_run hrun
  rwa [List.map_append, Token.map_lexeme_bare] at hphrase

/-! ### The first fault -/

/-- **A source that is rejected** is the start of a formula up to the fault, and no formula goes on
with the lexeme that is found there. -/
theorem exists_first_fault {cs : List Char} {fault : Fault}
    (h : run (.start : State α) (Token.ofChars cs) = .error fault) :
    ∃ (done : List Char) (ls : List (Lexeme α)), cs = done ++ fault.2 ∧ Leads ls done ∧
      (∃ ms more e, Spelled ms more ∧ Phrase .sum (ls ++ ms) e) ∧
      ∀ t ∈ (Token.ofChars fault.2 : List (Token α)).head?, ∀ ms e,
        ¬ Phrase .sum (ls ++ t.lexeme :: ms) e := by
  obtain ⟨ts, left, s, hcs, hts, hsource, hstop⟩ := exists_stop h
  obtain ⟨ms, more, e, p, hspelled, hread⟩ := exists_reads_ending s
  have hphrase := phrase_of_reads hts hread
  have hproper : ∀ t ∈ ts, t.lexeme.IsProper := fun t ht =>
    hphrase.isProper _ (List.mem_append_left _ (List.mem_map_of_mem ht))
  obtain ⟨done, rfl, hleads, hleft⟩ := Token.exists_leads hcs hproper
  refine ⟨done, _, by rw [hsource], hleads, ⟨ms, more, _, hspelled, hphrase⟩, ?_⟩
  intro t ht ms e hgoes
  rw [hsource, hleft] at ht
  have hmap : (ts ++ t :: Token.bare ms).map Token.lexeme =
      ts.map Token.lexeme ++ t.lexeme :: ms := by
    rw [List.map_append, List.map_cons, Token.map_lexeme_bare]
  rw [← hmap] at hgoes
  have hrun := hgoes.run_eq
  rw [run_append hts, run, List.foldlM_cons, hstop t ht] at hrun
  cases hrun

@[simp] theorem byteCount_append (cs ds : List Char) :
    byteCount (cs ++ ds) = byteCount cs + byteCount ds := by
  induction cs with
  | nil => simp [byteCount]
  | cons c cs ih => simp [byteCount, ih, Nat.add_assoc]

theorem utf8ByteSize_ofList (cs : List Char) : (String.ofList cs).utf8ByteSize = byteCount cs := by
  induction cs with
  | nil => rfl
  | cons c cs ih =>
    rw [String.ofList_cons, String.utf8ByteSize_append, String.utf8ByteSize_singleton, ih,
      byteCount]

/-- The position of a fault is where a source splits behind the start of a formula. -/
theorem exists_split_of_parse_eq_error {source : String} {fault : ParseError}
    (h : (Expr.parse source : Except ParseError (Expr α)) = .error fault) :
    ∃ (before after : String) (ls : List (Lexeme α)), source = before ++ after ∧
      before.utf8ByteSize = fault.position ∧ Leads ls before.toList ∧
      ∃ ms more e, Spelled ms more ∧ Phrase .sum (ls ++ ms) e := by
  rw [Expr.parse] at h
  split at h
  · cases h
  · next cause rest hrun =>
    cases h
    obtain ⟨done, ls, hsource, hleads, hphrase, -⟩ := exists_first_fault hrun
    refine ⟨String.ofList done, String.ofList rest, ls, ?_, ?_, ?_, hphrase⟩
    · rw [← String.ofList_append, ← hsource, String.ofList_toList]
    · rw [utf8ByteSize_ofList, hsource, byteCount_append, Nat.add_sub_cancel]
    · rwa [String.toList_ofList]

/-- **The position of a fault** lies in the source between two characters, and what stands before it
is the start of a formula. -/
theorem position_of_parse_eq_error {source : String} {fault : ParseError}
    (h : (Expr.parse source : Except ParseError (Expr α)) = .error fault) :
    fault.position ≤ source.utf8ByteSize ∧
      String.Pos.Raw.IsValid source ⟨fault.position⟩ ∧
      ∃ done rest : String, source = done ++ rest ∧ done.utf8ByteSize = fault.position ∧
        ∃ (more : String) (e : Expr α), Expr.parse (done ++ more) = .ok e := by
  obtain ⟨before, after, ls, rfl, hposition, hleads, ms, more, e, hspelled, hphrase⟩ :=
    exists_split_of_parse_eq_error h
  refine ⟨?_, ?_, before, after, rfl, hposition, String.ofList (' ' :: more), e, ?_⟩
  · rw [← hposition, String.utf8ByteSize_append]
    exact Nat.le_add_right _ _
  · rw [String.Pos.Raw.isValid_iff_exists_append]
    exact ⟨_, _, rfl, by rw [← hposition]; rfl⟩
  · rw [parse_eq_ok_iff_run, String.toList_append, String.toList_ofList]
    have hall := hleads (by simp [isBlank]) (spelled_blank hspelled)
    refine Phrase.run_eq ?_
    rwa [Token.map_lexeme_of_spelled hall]

/-- An argument that is missing, behind a letter of two bytes. -/
theorem position_of_parse_missingArgument :
    (Expr.parse "'ü' + price('a',,'b')" : Except ParseError (Expr Float)) =
        .error ⟨.expectedOperand ",", 17⟩ ∧
      17 ≤ "'ü' + price('a',,'b')".utf8ByteSize ∧
      String.Pos.Raw.IsValid "'ü' + price('a',,'b')" ⟨17⟩ ∧
      ∃ done rest : String, "'ü' + price('a',,'b')" = done ++ rest ∧ done.utf8ByteSize = 17 ∧
        ∃ (more : String) (e : Expr Float), Expr.parse (done ++ more) = .ok e := by
  have htokens : (Token.ofChars "'ü' + price('a',,'b')".toList : List (Token Float)) =
      [⟨.text "ü", "'ü' + price('a',,'b')".toList⟩, ⟨.mark '+', "+ price('a',,'b')".toList⟩,
        ⟨.word "price", "price('a',,'b')".toList⟩, ⟨.mark '(', "('a',,'b')".toList⟩,
        ⟨.text "a", "'a',,'b')".toList⟩, ⟨.mark ',', ",,'b')".toList⟩,
        ⟨.mark ',', ",'b')".toList⟩, ⟨.text "b", "'b')".toList⟩, ⟨.mark ')', ")".toList⟩] := by
    cbv
  have hfault : (Expr.parse "'ü' + price('a',,'b')" : Except ParseError (Expr Float)) =
      .error ⟨.expectedOperand ",", 17⟩ := by
    rw [Expr.parse, htokens]
    rfl
  exact ⟨hfault, position_of_parse_eq_error hfault⟩

end Parser

end FactorPortfolio
