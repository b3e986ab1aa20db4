import FactorPortfolio.Decimal.Digits
import FactorPortfolio.Formula.Expr
import FactorPortfolio.Text.Blank

/-! # The tokens of a formula

A token is a number (digits with at most one point), a quoted text, a word (letters, numbers and
underscores) or any other single character. Blanks separate tokens and are dropped. A token keeps
the source from its first character on, which says where it stands.
-/

namespace FactorPortfolio

open Text Decimal

inductive Lexeme (α : Type) where
  | number (value : α)
  /-- A point with no digit beside it. -/
  | lonePoint
  | text (content : String)
  /-- A quote that no second quote closes. -/
  | openText
  | word (letters : String)
  | mark (c : Char)

structure Token (α : Type) where
  lexeme : Lexeme α
  source : List Char

namespace Token

variable {α : Type} [Scalar α]

def isWordChar (c : Char) : Bool := isLetterOrNumber c || c == '_'

def leadingWord (cs : List Char) : List Char := cs.takeWhile isWordChar

/-- The number at the start of a text, and of how many characters it is. -/
def leadingNumber (cs : List Char) : Lexeme α × Nat :=
  let whole := cs.takeWhile isDigit
  let (fraction, points) := match cs.drop whole.length with
    | '.' :: rest => (rest.takeWhile isDigit, 1)
    | _ => ([], 0)
  let length := whole.length + points + fraction.length
  if whole.isEmpty && fraction.isEmpty then (.lonePoint, length)
  else (.number (OfScientific.ofScientific (ofDigits (whole ++ fraction)) true fraction.length),
    length)

/-- The text between a quote and the next one of its kind, and of how many characters it is with
its quotes. -/
def leadingText (quote : Char) (rest : List Char) : Lexeme α × Nat :=
  let content := rest.takeWhile (· != quote)
  if content.length < rest.length then (.text (String.ofList content), content.length + 2)
  else (.openText, content.length + 1)

/-- The lexeme at the start of a text that starts with `c`, and of how many characters it is. -/
def leading (c : Char) (rest : List Char) : Lexeme α × Nat :=
  if isDigit c || c == '.' then leadingNumber (c :: rest)
  else if c == '"' || c == '\'' then leadingText c rest
  else if isWordChar c then
    let w := leadingWord (c :: rest)
    (.word (String.ofList w), w.length)
  else (.mark c, 1)

def ofChars (cs : List Char) : List (Token α) :=
  match _h : skipBlanks cs with
  | [] => []
  | c :: rest =>
    let (lexeme, length) := leading c rest
    ⟨lexeme, c :: rest⟩ :: ofChars (rest.drop (length - 1))
termination_by cs.length
decreasing_by
  have hle : (skipBlanks cs).length ≤ cs.length := (List.dropWhile_suffix _).length_le
  rw [_h, List.length_cons] at hle
  rw [List.length_drop]
  omega

end Token

end FactorPortfolio
