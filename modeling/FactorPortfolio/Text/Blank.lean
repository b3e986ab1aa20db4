/-! # Blanks

The blank characters are those with the Unicode property White_Space.
-/

namespace FactorPortfolio.Text

def isBlank (c : Char) : Bool :=
  let n := c.toNat
  (9 ≤ n && n ≤ 13) || n == 32 || n == 0x85 || n == 0xA0 || n == 0x1680 ||
    (0x2000 ≤ n && n ≤ 0x200A) || n == 0x2028 || n == 0x2029 || n == 0x202F || n == 0x205F ||
    n == 0x3000

/-- A text from its first character that is no blank on. -/
def skipBlanks (cs : List Char) : List Char := cs.dropWhile isBlank

def trimChars (cs : List Char) : List Char := (skipBlanks (skipBlanks cs).reverse).reverse

def trim (s : String) : String := String.ofList (trimChars s.toList)

/-- The parts of a text between the characters `mark`; one more part than there are marks. -/
def splitAt (mark : Char) : List Char → List (List Char)
  | [] => [[]]
  | c :: rest =>
    if c == mark then [] :: splitAt mark rest
    else match splitAt mark rest with
      | [] => [[c]]
      | part :: parts => (c :: part) :: parts

end FactorPortfolio.Text
