import FactorPortfolio.Text.Blank

/-! # Names of databases

A database is named by the path of its file, or by a URI that starts with `file:` and may hold
bytes as `%` and two hexadecimal digits, a host before the path and settings after it. Some names
stand for a database that is kept in no file.
-/

namespace FactorPortfolio

inductive DatabaseName where
  /-- An empty database that goes with the run. -/
  | transient
  | file (path : String)
  deriving DecidableEq

namespace DatabaseName

def hexValue? (c : Char) : Option Nat :=
  if '0' ≤ c && c ≤ '9' then some (c.toNat - '0'.toNat)
  else if 'a' ≤ c && c ≤ 'f' then some (c.toNat - 'a'.toNat + 10)
  else if 'A' ≤ c && c ≤ 'F' then some (c.toNat - 'A'.toNat + 10)
  else none

def byte? (high low : Char) : Option UInt8 :=
  match hexValue? high, hexValue? low with
  | some h, some l => some (UInt8.ofNat (16 * h + l))
  | _, _ => none

/-- The bytes of a part of a URI; a `%` without two digits stands for itself. -/
def bytes : List Char → List UInt8
  | [] => []
  | '%' :: high :: low :: rest =>
    match byte? high low with
    | some b => b :: bytes rest
    | none => String.utf8EncodeChar '%' ++ bytes (high :: low :: rest)
  | c :: rest => String.utf8EncodeChar c ++ bytes rest

/-- The text of a part of a URI, up to its first zero byte. -/
def decode? (cs : List Char) : Option String :=
  String.fromUTF8? ⟨((bytes cs).takeWhile (· != 0)).toArray⟩

/-- The part of a URI from its path on; a host in front has to be this one. -/
def afterHost? : List Char → Option (List Char)
  | '/' :: '/' :: cs =>
    let host := cs.takeWhile (· != '/')
    if host.isEmpty || host == "localhost".toList then some (cs.dropWhile (· != '/')) else none
  | cs => some cs

def inMemory (settings : List Char) : Bool :=
  (Text.splitAt '&' settings).any fun setting => decode? setting == some "mode=memory"

def ofPath (path : String) : DatabaseName :=
  if path.isEmpty || path == ":memory:" then .transient else .file path

/-- What a name stands for; nothing if it is a URI of another host or of no text. -/
def ofText? (name : String) : Option DatabaseName :=
  match name.toList with
  | 'f' :: 'i' :: 'l' :: 'e' :: ':' :: cs => do
    let cs ← afterHost? (cs.takeWhile (· != '#'))
    let path ← decode? (cs.takeWhile (· != '?'))
    return if inMemory ((cs.dropWhile (· != '?')).drop 1) then .transient else ofPath path
  | _ => some (ofPath name)

end DatabaseName

end FactorPortfolio
