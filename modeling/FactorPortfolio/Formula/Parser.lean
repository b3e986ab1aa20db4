import FactorPortfolio.Formula.Token

/-! # Reading a formula

The grammar is

    sum      ::= product (('+' | '-') product)*
    product  ::= unary (('*' | '/') unary)*
    unary    ::= '-' unary | primary
    primary  ::= number | text | 'currentDate' | function '(' [sum (',' sum)*] ')' | '(' sum ')'

and the parser takes one token at a time. Its state says whether an operand or an operator comes
next and holds what is still open: in each enclosing bracket the left part of a sum, the left part
of a product, and minus signs. `step` reads a token and `finish` ends the text, so a formula is
read by a fold over its tokens; a fault is found at the first token that no state can take.
-/

namespace FactorPortfolio

inductive ParseCause where
  | expectedChar (expected : Char) (found : Option Char)
  | expectedSeparator (found : String)
  | expectedOperand (found : String)
  | expectedNumber
  | unterminatedText
  | unknownWord (word : String)
  | trailingInput (rest : String)
  deriving DecidableEq

def ParseCause.message : ParseCause → String
  | expectedChar c (some found) =>
    "expected '" ++ String.singleton c ++ "', found '" ++ String.singleton found ++ "'"
  | expectedChar c none => "expected '" ++ String.singleton c ++ "', found end of input"
  | expectedSeparator found => "expected ',' or ')', found '" ++ found ++ "'"
  | expectedOperand found => "expected expression, found '" ++ found ++ "'"
  | expectedNumber => "expected number"
  | unterminatedText => "unterminated string"
  | unknownWord w => "unknown identifier '" ++ w ++ "'"
  | trailingInput rest => "unexpected input after expression: '" ++ rest ++ "'"

/-- A fault in a formula at a position counted in bytes. -/
structure ParseError where
  cause : ParseCause
  position : Nat
  deriving DecidableEq

namespace ParseError

def message (e : ParseError) : String :=
  "parse error at position " ++ Decimal.natText e.position ++ ": " ++ e.cause.message

/-- The source, a line with a caret, and the message. -/
def inContext (e : ParseError) (source : String) : String :=
  source ++ "\n" ++ String.ofList (List.replicate e.position ' ') ++ "^\n" ++ e.message

end ParseError

namespace Parser

variable {α : Type} [Scalar α]

/-- What has been read of a sum and waits for the operand that comes next. -/
structure Pending (α : Type) where
  sum : Option (Expr α × Operator)
  product : Option (Expr α × Operator)
  minuses : Nat

namespace Pending

def fresh : Pending α := ⟨none, none, 0⟩

def isFresh (p : Pending α) : Bool := p.sum.isNone && p.product.isNone && p.minuses == 0

/-- Puts a right operand to a left part that waits for one. -/
def complete (left : Option (Expr α × Operator)) (right : Expr α) : Expr α :=
  match left with
  | some (l, op) => .binary op l right
  | none => right

/-- An operand with the minus signs in front of it. -/
def signed (p : Pending α) (e : Expr α) : Expr α := Nat.repeat Expr.negate p.minuses e

/-- The product that ends with the operand `e`. -/
def factor (p : Pending α) (e : Expr α) : Expr α := complete p.product e

/-- The sum that ends with the operand `e`. -/
def total (p : Pending α) (e : Expr α) : Expr α := complete p.sum (p.factor e)

end Pending

/-- A bracket that is open: a group, or the arguments of a call with those already read. -/
inductive Enclosure (α : Type) where
  | group
  | call (f : Function) (args : List (Expr α))

/-- The open brackets from the inside out, each with what waits outside of it. -/
abbrev Outer (α : Type) := List (Enclosure α × Pending α)

inductive State (α : Type) where
  /-- An operand comes next. -/
  | operand (p : Pending α) (outer : Outer α)
  /-- The name of a function has been read, and its bracket comes next. -/
  | opening (f : Function) (p : Pending α) (outer : Outer α)
  /-- An operand has been read, its minus signs included. -/
  | operator (e : Expr α) (p : Pending α) (outer : Outer α)

/-- A cause, and the source from where it was found on. -/
abbrev Fault := ParseCause × List Char

def State.start : State α := .operand .fresh []

/-- The operand `e` has been read. -/
def State.value (e : Expr α) (p : Pending α) (outer : Outer α) : State α :=
  .operator (p.signed e) p outer

/-- The word or else the character at the start of a source. -/
def describe (source : List Char) : String :=
  match Token.leadingWord source with
  | [] => match source with
    | [] => "end of input"
    | c :: _ => String.singleton c
  | w => String.ofList w

def sumOperator? : Char → Option Operator
  | '+' => some .add
  | '-' => some .sub
  | _ => none

def productOperator? : Char → Option Operator
  | '*' => some .mul
  | '/' => some .div
  | _ => none

def stepOperand (p : Pending α) (outer : Outer α) (t : Token α) : Except Fault (State α) :=
  match t.lexeme with
  | .number x => .ok (.value (.number x) p outer)
  | .lonePoint => .error (.expectedNumber, t.source)
  | .text s => .ok (.value (.text s) p outer)
  | .openText => .error (.unterminatedText, t.source)
  | .word w =>
    if w == Expr.currentDateName then .ok (.value .currentDate p outer)
    else match Function.ofName? w with
      | some f => .ok (.opening f p outer)
      | none => .error (.unknownWord w, t.source)
  | .mark c =>
    if c == '-' then .ok (.operand ⟨p.sum, p.product, p.minuses + 1⟩ outer)
    else if c == '(' then .ok (.operand .fresh ((.group, p) :: outer))
    else match c, outer, p.isFresh with
      | ')', (.call f [], p') :: outer', true => .ok (.value (.call f []) p' outer')
      | _, _, _ => .error (.expectedOperand (describe t.source), t.source)

def stepOpening (f : Function) (p : Pending α) (outer : Outer α) (t : Token α) :
    Except Fault (State α) :=
  match t.lexeme with
  | .mark '(' => .ok (.operand .fresh ((.call f [], p) :: outer))
  | _ => .error (.expectedChar '(' t.source.head?, t.source)

/-- The sum `e` has ended where `t` stands. -/
def stepEnd (e : Expr α) (outer : Outer α) (t : Token α) : Except Fault (State α) :=
  match outer, t.lexeme with
  | [], _ => .error (.trailingInput (String.ofList t.source), t.source)
  | (.group, p) :: outer', .mark ')' => .ok (.value e p outer')
  | (.group, _) :: _, _ => .error (.expectedChar ')' t.source.head?, t.source)
  | (.call f args, p) :: outer', .mark ')' => .ok (.value (.call f (args ++ [e])) p outer')
  | (.call f args, p) :: outer', .mark ',' =>
    .ok (.operand .fresh ((.call f (args ++ [e]), p) :: outer'))
  | (.call _ _, _) :: _, _ => .error (.expectedSeparator (describe t.source), t.source)

def stepOperator (e : Expr α) (p : Pending α) (outer : Outer α) (t : Token α) :
    Except Fault (State α) :=
  match t.lexeme with
  | .mark c =>
    match productOperator? c, sumOperator? c with
    | some op, _ => .ok (.operand ⟨p.sum, some (p.factor e, op), 0⟩ outer)
    | none, some op => .ok (.operand ⟨some (p.total e, op), none, 0⟩ outer)
    | none, none => stepEnd (p.total e) outer t
  | _ => stepEnd (p.total e) outer t

def step (s : State α) (t : Token α) : Except Fault (State α) :=
  match s with
  | .operand p outer => stepOperand p outer t
  | .opening f p outer => stepOpening f p outer t
  | .operator e p outer => stepOperator e p outer t

def finish : State α → Except Fault (Expr α)
  | .operand _ _ => .error (.expectedOperand (describe []), [])
  | .opening _ _ _ => .error (.expectedChar '(' none, [])
  | .operator e p [] => .ok (p.total e)
  | .operator _ _ ((.group, _) :: _) => .error (.expectedChar ')' none, [])
  | .operator _ _ ((.call _ _, _) :: _) => .error (.expectedSeparator (describe []), [])

def run (s : State α) (ts : List (Token α)) : Except Fault (Expr α) := do
  finish (← ts.foldlM step s)

def byteCount : List Char → Nat
  | [] => 0
  | c :: rest => c.utf8Size + byteCount rest

end Parser

variable {α : Type} [Scalar α]

/-- Reads a text as a formula. -/
def Expr.parse (source : String) : Except ParseError (Expr α) :=
  match Parser.run .start (Token.ofChars source.toList) with
  | .ok e => .ok e
  | .error (cause, rest) =>
    .error ⟨cause, Parser.byteCount source.toList - Parser.byteCount rest⟩

def Formula.parse (source : String) : Except ParseError (Formula α) :=
  (Expr.parse source).map fun tree => ⟨source, tree⟩

end FactorPortfolio
