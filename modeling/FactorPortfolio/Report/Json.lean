import FactorPortfolio.Scalar.Binary64

/-! # Reports as JSON text

A report is a tree of named and listed values. Members of objects stand in the order in which they
are given. `compact` writes a report on one line, `pretty` puts every member and item on a line of
its own. A number that is not finite is written as null.
-/

namespace FactorPortfolio

inductive Json where
  | null
  | number (x : Float)
  | count (n : Nat)
  | text (s : String)
  | array (items : List Json)
  | object (members : List (String × Json))

namespace Json

def hexDigit (n : Nat) : Char := if n < 10 then Char.ofNat (48 + n) else Char.ofNat (87 + n)

def escape (c : Char) : List Char :=
  if c == '"' then ['\\', '"']
  else if c == '\\' then ['\\', '\\']
  else if c == '\n' then ['\\', 'n']
  else if c == '\r' then ['\\', 'r']
  else if c == '\t' then ['\\', 't']
  else if c.toNat == 8 then ['\\', 'b']
  else if c.toNat == 12 then ['\\', 'f']
  else if c.toNat < 32 then ['\\', 'u', '0', '0', hexDigit (c.toNat / 16), hexDigit (c.toNat % 16)]
  else [c]

def quote (s : String) : String := "\"" ++ String.ofList (s.toList.flatMap escape) ++ "\""

def numberText (x : Float) : String := if x.isFinite then Binary64.compactText x else "null"

mutual

def compact : Json → String
  | null => "null"
  | number x => numberText x
  | count n => Decimal.natText n
  | text s => quote s
  | array items => "[" ++ compactItems items ++ "]"
  | object members => "\x7b" ++ compactMembers members ++ "\x7d"

def compactItems : List Json → String
  | [] => ""
  | j :: rest => match rest with
    | [] => compact j
    | _ => compact j ++ "," ++ compactItems rest

def compactMembers : List (String × Json) → String
  | [] => ""
  | (key, j) :: rest => match rest with
    | [] => quote key ++ ":" ++ compact j
    | _ => quote key ++ ":" ++ compact j ++ "," ++ compactMembers rest

end

def newline (depth : Nat) : String := "\n" ++ String.ofList (List.replicate (2 * depth) ' ')

mutual

/-- The text of a report that stands at some depth, on lines of its own where it has parts. -/
def prettyAt (depth : Nat) : Json → String
  | null => "null"
  | number x => numberText x
  | count n => Decimal.natText n
  | text s => quote s
  | array [] => "[]"
  | array (j :: rest) => "[" ++ prettyItems (depth + 1) (j :: rest) ++ newline depth ++ "]"
  | object [] => "\x7b\x7d"
  | object (m :: rest) =>
    "\x7b" ++ prettyMembers (depth + 1) (m :: rest) ++ newline depth ++ "\x7d"

def prettyItems (depth : Nat) : List Json → String
  | [] => ""
  | j :: rest =>
    let first := newline depth ++ prettyAt depth j
    match rest with
    | [] => first
    | _ => first ++ "," ++ prettyItems depth rest

def prettyMembers (depth : Nat) : List (String × Json) → String
  | [] => ""
  | (key, j) :: rest =>
    let first := newline depth ++ quote key ++ ": " ++ prettyAt depth j
    match rest with
    | [] => first
    | _ => first ++ "," ++ prettyMembers depth rest

end

def pretty (j : Json) : String := prettyAt 0 j

end Json

end FactorPortfolio
