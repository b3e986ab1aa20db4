import FactorPortfolio.CommandLine.Run

/-! # The program

Commands on the files and streams of the system. Databases are left to callers that bring a store
of their own: here opening one is a fault of the store.
-/

namespace FactorPortfolio.System

/-- What went wrong with a file of the system. -/
def fileFault : IO.Error → FileFault
  | .noFileOrDirectory .. => .notFound
  | .inappropriateType _ code _ => if code == 21 then .isFolder else .notFolder
  | .invalidArgument _ code _ => if code == 22 then .zeroInName else .nameTooLong
  | e => .other (toString e)

def attempt {β : Type} (step : IO β) : IO (Except FileFault β) := do
  match ← step.toBaseIO with
  | .ok v => return .ok v
  | .error e => return .error (fileFault e)

instance : Surroundings IO where
  readText path := attempt (IO.FS.readFile path)
  writeText path content := attempt (IO.FS.writeFile path content)
  openDatabase path := return .error (.failure ("no database can be opened at " ++ path))
  print line := IO.println line
  note line := IO.eprintln line

def run (args : List String) : IO Nat := do
  match Arguments.read args with
  | .ok command => command.run
  | .error fault =>
    IO.eprintln fault.message
    return fault.exitCode

end FactorPortfolio.System

def main (args : List String) : IO UInt32 := return (← FactorPortfolio.System.run args).toUInt32
