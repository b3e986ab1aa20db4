import FactorPortfolio.Proofs.Except
import FactorPortfolio.Universe.Coverage
import Mathlib.Data.List.Nodup
import Mathlib.Tactic.Common

/-!
# What a list of symbols reads as

A list that reads without fault has at least one symbol, no symbol twice and none without a name
(`readable_of_parse`): every token adds one that is new (`Readable.add`), and a text has at least
one token.
-/

namespace FactorPortfolio

namespace Text

theorem splitAt_ne_nil (mark : Char) (cs : List Char) : splitAt mark cs ≠ [] := by
  cases cs with
  | nil => simp [splitAt]
  | cons c rest =>
    rw [splitAt]
    split
    · simp
    · split <;> simp

/-- Upper case leaves at least one character of each. -/
theorem upperChar_ne_nil (c : Char) : upperChar c ≠ [] := by
  have hsequences : ∀ s ∈ upperSequences, s.2 ≠ [] := by decide
  rw [upperChar]
  split
  · simp
  · rw [mapCase]
    split
    · rename_i code cs hfind
      simpa using hsequences (code, cs) (List.mem_of_find?_eq_some hfind)
    · simp

theorem upper_ne_empty {cs : List Char} (h : cs ≠ []) : upper (String.ofList cs) ≠ "" := by
  obtain ⟨c, rest, rfl⟩ := List.exists_cons_of_ne_nil h
  intro hempty
  have hnil := congrArg String.toList hempty
  simp [upper, upperChar_ne_nil] at hnil

end Text

namespace Symbols

/-- Symbols that a list of symbols can consist of. -/
structure Readable (symbols : List Symbol) : Prop where
  nodup : symbols.Nodup
  named : ∀ s ∈ symbols, s ≠ ""

/-- **A token adds a symbol that has a name and is not there yet.** -/
theorem Readable.add {read read' : List Symbol} {token : List Char} (h : Readable read)
    (hadd : Symbols.add read token = .ok read') : Readable read' ∧ read' ≠ [] := by
  rw [Symbols.add] at hadd
  split at hadd
  · cases hadd
  rename_i hempty
  dsimp only at hadd
  split at hadd
  · cases hadd
  rename_i hnew
  obtain rfl := Except.ok.inj hadd
  have hnamed : Text.upper (String.ofList (Text.trimChars token)) ≠ "" :=
    Text.upper_ne_empty fun hnil => hempty (by rw [hnil]; rfl)
  refine ⟨⟨?_, ?_⟩, by simp⟩
  · refine List.nodup_append.2 ⟨h.nodup, List.nodup_singleton _, ?_⟩
    rintro s hs _ ht rfl
    rw [List.mem_singleton.1 ht] at hs
    exact hnew (List.contains_iff_mem.2 hs)
  · intro s hs
    rcases List.mem_append.1 hs with hs | hs
    · exact h.named s hs
    · rw [List.mem_singleton.1 hs]
      exact hnamed

/-- **What reads as a list of symbols** has one at least, none twice and each with a name. -/
theorem readable_of_parse {input : String} {symbols : List Symbol}
    (h : parse input = .ok symbols) : Readable symbols ∧ symbols ≠ [] := by
  rw [parse] at h
  cases htokens : Text.splitAt ',' input.toList with
  | nil => exact absurd htokens (Text.splitAt_ne_nil _ _)
  | cons token tokens =>
    rw [htokens, List.foldlM_cons, Except.bind_eq_ok_iff] at h
    obtain ⟨read, hread, h⟩ := h
    refine Except.foldlM_induction (P := fun read => Readable read ∧ read ≠ []) ?_ h ?_
    · intro read token read' hprevious hadd
      exact hprevious.1.add hadd
    · exact Readable.add ⟨List.nodup_nil, by simp⟩ hread

end Symbols

end FactorPortfolio
