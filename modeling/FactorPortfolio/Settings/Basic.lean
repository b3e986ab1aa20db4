import FactorPortfolio.Scalar.Binary64
import FactorPortfolio.Table
import FactorPortfolio.Text.Blank
import FactorPortfolio.Text.Case

/-! # Settings

A settings file is a list of groups of named values. A line in square brackets opens a group, and
every other line that is not empty sets one name of it; names set before the first group belong to
the group `default`. A comment reaches from `;` or `#` to the end of its line. The case of group
and setting names does not matter, and of two values for one name the later counts.
-/

namespace FactorPortfolio

inductive SettingsLine where
  | blank
  | heading (group : String)
  /-- A name that stands alone has no value. -/
  | entry (name : String) (value : Option String)
  deriving DecidableEq

/-- The groups of a settings file, each with the values of its names. -/
structure Settings where
  groups : Table String (Table String (Option String))

namespace SettingsLine

open Text

def isComment (c : Char) : Bool := c == ';' || c == '#'

def isSeparator (c : Char) : Bool := c == '=' || c == ':'

/-- The name of a group or of a setting as a line gives it, without the blanks around it and in
lower case. -/
def readName (cs : List Char) : String := lower (String.ofList (trimChars cs))

/-- The text before the last closing bracket. -/
def beforeBracket? (cs : List Char) : Option (List Char) :=
  match cs.reverse.dropWhile (· != ']') with
  | [] => none
  | _ :: before => some before.reverse

/-- A name, and a value after the first separator if there is one. A name cannot be empty. -/
def readEntry? (cs : List Char) : Option SettingsLine :=
  let name := readName (cs.takeWhile fun c => !isSeparator c)
  match cs.dropWhile fun c => !isSeparator c with
  | [] => some (.entry name none)
  | _ :: value =>
    if name.isEmpty then none else some (.entry name (some (String.ofList (trimChars value))))

def read? (line : List Char) : Option SettingsLine :=
  match trimChars (line.takeWhile fun c => !isComment c) with
  | [] => some .blank
  | '[' :: rest => (beforeBracket? rest).map fun group => .heading (readName group)
  | cs => readEntry? cs

end SettingsLine

namespace Settings

def defaultGroup : String := "default"

structure Reading where
  settings : Settings
  group : String

def group (s : Settings) (name : String) : Table String (Option String) :=
  (s.groups.get? name).getD ∅

def set (s : Settings) (groupName name : String) (value : Option String) : Settings :=
  ⟨s.groups.insert groupName ((s.group groupName).insert name value)⟩

def Reading.step (r : Reading) : SettingsLine → Reading
  | .blank => r
  | .heading group => ⟨r.settings, group⟩
  | .entry name value => ⟨r.settings.set r.group name value, r.group⟩

/-- Reads lines from the one with the number `n` on; the error is the number of a line that says
nothing. -/
def readLines (r : Reading) (n : Nat) : List (List Char) → Except Nat Settings
  | [] => .ok r.settings
  | line :: rest =>
    match SettingsLine.read? line with
    | some said => readLines (r.step said) (n + 1) rest
    | none => .error n

def parse (text : String) : Except Nat Settings :=
  readLines ⟨⟨∅⟩, defaultGroup⟩ 1 (Text.splitAt '\n' text.toList)

/-- The value of a setting; an empty value counts as none. The case of the names asked for does
not matter, but blanks around them do: no name of a file has any. -/
def text? (s : Settings) (group name : String) : Option String :=
  (((s.group (Text.lower group)).get? (Text.lower name)).join.map Text.trim).filter
    fun value => !value.isEmpty

/-- A 64-bit integer; `default` in place of what is absent or no such number. -/
def int (s : Settings) (group name : String) (default : Int) : Int :=
  ((s.text? group name).bind Decimal.readInt64?).getD default

/-- A number; `default` in place of what is absent or no number. -/
def number (s : Settings) (group name : String) (default : Float) : Float :=
  ((s.text? group name).bind Binary64.read?).getD default

end Settings

end FactorPortfolio
