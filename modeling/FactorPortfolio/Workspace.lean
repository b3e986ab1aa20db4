import FactorPortfolio.RunError
import FactorPortfolio.Store.Database
import FactorPortfolio.Store.DatabaseName
import FactorPortfolio.Text.Blank

/-! # What commands work on

A command reads and writes files, opens databases, prints lines and notes others. `Surroundings`
is the record of these steps, so a command runs in every monad that has them; a `Workspace` has
them as plain data, a tree of files with the lines printed and noted so far.
-/

namespace FactorPortfolio

/-- The steps of a command that lead out of it. -/
class Surroundings (m : Type → Type) where
  readText : String → m (Except FileFault String)
  writeText : String → String → m (Except FileFault Unit)
  /-- Opens a database, which is empty if it has not been there. -/
  openDatabase : String → m (Except StoreError (DatabaseStore Float))
  /-- Puts out a line of the result. -/
  print : String → m Unit
  /-- Puts out a line that accompanies the result. -/
  note : String → m Unit

inductive Item where
  | folder
  | text (content : String)
  | database (store : DatabaseStore Float)
  /-- Takes every text and keeps none. -/
  | sink

/-- A place, as the names that lead to it from the folder of the workspace. A place outside of
that folder starts with `..`, once for each folder around it, or with the name `/` of the root. -/
abbrev Place := List String

namespace Place

/-- The folder around a place. The root is its own; there is no end to those around the folder of
the workspace. -/
def outer (p : Place) : Place :=
  if p.all (· == "..") then ".." :: p
  else if p == ["/"] then p
  else p.dropLast

/-- The place to which a name leads from a folder. -/
def follow (p : Place) (name : String) : Place :=
  if name == "" || name == "." then p
  else if name == ".." then p.outer
  else p ++ [name]

def start (path : String) : Place := if path.startsWith "/" then ["/"] else []

def names (path : String) : List String := (Text.splitAt '/' path.toList).map String.ofList

/-- The place to which the names of a path lead, whatever stands on the way. -/
def ofPath (path : String) : Place := (names path).foldl follow (start path)

end Place

/-- A tree of files with the lines printed and noted so far. -/
structure Workspace where
  items : Table Place Item
  printed : List String
  noted : List String

namespace Workspace

/-- A workspace without files of its own. Outside of it stand the folder for passing files and the
device that swallows what is written to it. -/
def empty : Workspace :=
  ⟨Table.ofList [(["/"], .folder), (["/", "tmp"], .folder), (["/", "dev"], .folder),
    (["/", "dev", "null"], .sink)], [], []⟩

/-- What stands at a place. The folder of the workspace and those around it are always there. -/
def item? (w : Workspace) (p : Place) : Option Item :=
  if p.all (· == "..") then some .folder else w.items.get? p

/-- The greatest lengths of a name and of a path, in bytes. -/
def nameLimit : Nat := 255

def pathLimit : Nat := 4095

/-- Goes on from a place by the names of a path, each of which has to be looked up in a folder. -/
def locate (w : Workspace) (p : Place) : List String → Except FileFault Place
  | [] => .ok p
  | name :: rest =>
    match w.item? p with
    | none => .error .notFound
    | some .folder =>
      if nameLimit < name.utf8ByteSize then .error .nameTooLong
      else w.locate (p.follow name) rest
    | some _ => .error .notFolder

/-- The place of a path, every folder on the way being there. -/
def place (w : Workspace) (path : String) : Except FileFault Place :=
  if path.toList.contains '\x00' then .error .zeroInName
  else if pathLimit < path.utf8ByteSize then .error .nameTooLong
  else w.locate (.start path) (Place.names path)

def readText (w : Workspace) (path : String) : Except FileFault String := do
  match w.item? (← w.place path) with
  | some (.text content) => return content
  | some .sink => return ""
  | some .folder => .error .isFolder
  | some (.database _) => .error .notText
  | none => .error .notFound

def writeText (w : Workspace) (path content : String) : Except FileFault Workspace := do
  let p ← w.place path
  match w.item? p with
  | some .folder => .error .isFolder
  | some .sink => return w
  | _ => return { w with items := w.items.insert p (.text content) }

/-- Puts an item at a place, making the folders that lead to it. -/
def put (w : Workspace) (p : Place) (item : Item) : Workspace :=
  let folders := ((List.range p.length).drop 1).map fun n => (p.take n, Item.folder)
  { w with items := (folders ++ [(p, item)]).foldl (fun t e => t.insert e.1 e.2) w.items }

def addText (w : Workspace) (path content : String) : Workspace :=
  w.put (.ofPath path) (.text content)

def addDatabase (w : Workspace) (name : String) (store : DatabaseStore Float) : Workspace :=
  match DatabaseName.ofText? name with
  | some (.file path) => w.put (.ofPath path) (.database store)
  | _ => w

/-- A database that cannot be opened. -/
def unopened : StoreError := .failure "unable to open database file"

/-- Opens the database at a place. A text is none, unless it is empty: then the database takes its
place. A database that is not there is made, in a folder that is there. -/
def openAt (w : Workspace) (p : Place) : Except StoreError (DatabaseStore Float) × Workspace :=
  let made : DatabaseStore Float := .empty 1
  let created : Workspace := { w with items := w.items.insert p (.database made) }
  match w.item? p with
  | some (.database store) => (.ok store, w)
  | some (.text content) =>
    if content.isEmpty then (.ok made, created) else (.error (.failure "file is not a database"), w)
  | some .folder | some .sink => (.error unopened, w)
  | none =>
    match w.item? p.outer with
    | some .folder => (.ok made, created)
    | _ => (.error unopened, w)

/-- Opens the database of a name, which is empty if it has not been there. -/
def openDatabase (w : Workspace) (name : String) :
    Except StoreError (DatabaseStore Float) × Workspace :=
  match DatabaseName.ofText? name with
  | some .transient => (.ok (.empty 1), w)
  | some (.file path) => w.openAt (.ofPath path)
  | none => (.error unopened, w)

instance : Surroundings (StateM Workspace) where
  readText path := return (← get).readText path
  writeText path content := do
    match (← get).writeText path content with
    | .ok w => set w; return .ok ()
    | .error fault => return .error fault
  openDatabase path := modifyGet fun w => w.openDatabase path
  print line := modify fun w => { w with printed := w.printed ++ [line] }
  note line := modify fun w => { w with noted := w.noted ++ [line] }

end Workspace

end FactorPortfolio
