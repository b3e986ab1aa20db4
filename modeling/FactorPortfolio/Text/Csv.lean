import FactorPortfolio.Text.Blank

/-! # Comma-separated rows

Fields are separated by commas and rows by line ends. A field that starts with a quote reaches to
the closing quote, a quote inside of it being written twice. Empty lines are no rows, and blanks
at the ends of fields are dropped.
-/

namespace FactorPortfolio.Text.Csv

inductive Mode where
  | start
  | plain
  | quoted
  /-- After a quote inside a quoted field. -/
  | closed

/-- The field, the row and the rows read so far, each in reverse. -/
structure Cursor where
  mode : Mode
  field : List Char
  row : List String
  rows : List (List String)

namespace Cursor

def initial : Cursor := ⟨.start, [], [], []⟩

def push (cur : Cursor) (mode : Mode) (c : Char) : Cursor :=
  { cur with mode := mode, field := c :: cur.field }

def fields (cur : Cursor) : List String := String.ofList (trimChars cur.field.reverse) :: cur.row

def endField (cur : Cursor) : Cursor := ⟨.start, [], cur.fields, cur.rows⟩

def endRow (cur : Cursor) : Cursor := ⟨.start, [], [], cur.fields.reverse :: cur.rows⟩

def atRowStart (cur : Cursor) : Bool :=
  match cur.mode with
  | .start => cur.row.isEmpty
  | _ => false

def outside (cur : Cursor) (c : Char) : Cursor :=
  if c == ',' then cur.endField
  else if c == '\n' || c == '\r' then if cur.atRowStart then cur else cur.endRow
  else cur.push .plain c

def step (cur : Cursor) (c : Char) : Cursor :=
  match cur.mode with
  | .start => if c == '"' then { cur with mode := .quoted } else cur.outside c
  | .plain => cur.outside c
  | .quoted => if c == '"' then { cur with mode := .closed } else cur.push .quoted c
  | .closed => if c == '"' then cur.push .quoted c else cur.outside c

/-- All rows at the end of the text. -/
def finish (cur : Cursor) : List (List String) :=
  (if cur.atRowStart then cur else cur.endRow).rows.reverse

end Cursor

/-- The rows of a text; a byte order mark in front is no part of them. -/
def rows (text : String) : List (List String) :=
  let cs := match text.toList with
    | c :: rest => if c == '\uFEFF' then rest else c :: rest
    | [] => []
  (cs.foldl Cursor.step .initial).finish

/-- The field of a row under the heading `name`, which has to stand over one column. -/
def field? (header row : List String) (name : String) : Option String :=
  match (header.zip row).filter fun e => e.1 == name with
  | [e] => some e.2
  | _ => none

/-- The field under a heading that need not be there; an empty field counts as absent. The outer
value is absent when the heading stands over several columns. -/
def optionalField? (header row : List String) (name : String) : Option (Option String) :=
  match (header.zip row).filter fun e => e.1 == name with
  | [] => some none
  | [e] => some (if e.2.isEmpty then none else some e.2)
  | _ => none

/-- Reads a text with headings: each row as long as the first, and each read by `read`. -/
def records? {β : Type} (read : List String → List String → Option β) (text : String) :
    Option (List β) :=
  match rows text with
  | [] => some []
  | header :: rest =>
    rest.mapM fun row => if row.length = header.length then read header row else none

end FactorPortfolio.Text.Csv
