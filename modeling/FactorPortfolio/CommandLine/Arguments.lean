import FactorPortfolio.CommandLine.Command

/-! # Reading arguments

The first argument names the command and the others are its options. The value of an option is
attached to it (`--date=2024-01-02`, `-cfile`, `-c=file`) or is the next argument, unless that
starts with a hyphen. An option whose value has come as an argument of its own is settled when the
next option begins or the arguments end: only then is it refused as repeated or unreadable, so an
argument that cannot be understood is noticed first.
-/

namespace FactorPortfolio.Arguments

inductive Word where
  /-- Two hyphens alone. -/
  | separator
  | long (name : String) (value : Option String)
  | short (letter : Char) (rest : List Char)
  | plain (text : String)

def Word.ofText (s : String) : Word :=
  match s.toList with
  | ['-', '-'] => .separator
  | '-' :: '-' :: cs =>
    let name := String.ofList (cs.takeWhile (· != '='))
    match cs.dropWhile (· != '=') with
    | [] => .long name none
    | _ :: value => .long name (some (String.ofList value))
  | '-' :: c :: rest => .short c rest
  | _ => .plain s

structure Given where
  config : Option String
  output : Option String
  date : Option Date
  expression : Option String
  symbol : Option String

def Given.nothing : Given := ⟨none, none, none, none, none⟩

def once {β : Type} (old : Option β) (new : β) : Except UsageFault (Option β) :=
  if old.isSome then .error .repeatedOption else .ok (some new)

/-- Sets a path, which cannot be empty. -/
def oncePath (old : Option String) (path : String) : Except UsageFault (Option String) := do
  let set ← once old path
  if path.isEmpty then .error .missingValue else return set

def onceDate (old : Option Date) (text : String) : Except UsageFault (Option Date) :=
  if old.isSome then .error .repeatedOption
  else match Date.ofSpacedText? text with
    | some d => .ok (some d)
    | none => .error .badValue

def Given.set (g : Given) (option : CommandOption) (value : String) : Except UsageFault Given :=
  match option with
  | .config => return { g with config := ← oncePath g.config value }
  | .output => return { g with output := ← oncePath g.output value }
  | .date => return { g with date := ← onceDate g.date value }
  | .expression => return { g with expression := ← once g.expression value }
  | .symbol => return { g with symbol := ← once g.symbol value }

/-- An option that has not been settled, and its value if that has come. -/
structure Pending where
  option : CommandOption
  value : Option String

structure State where
  given : Given
  pending : Option Pending

namespace State

def settle (s : State) : Except UsageFault Given :=
  match s.pending with
  | none => .ok s.given
  | some ⟨_, none⟩ => .error .missingValue
  | some ⟨option, some value⟩ => s.given.set option value

/-- Begins an option, with its value if that is attached. -/
def begin (s : State) (option : CommandOption) : Option String → Except UsageFault State
  | some value => do
    let given ← s.settle
    return ⟨← given.set option value, none⟩
  | none => return ⟨← s.settle, some ⟨option, none⟩⟩

/-- Asks for the help, once what is pending has been settled. -/
def askHelp (s : State) : Except UsageFault State := do
  let _ ← s.settle
  .error .help

def attached : List Char → Option String
  | [] => none
  | '=' :: value => some (String.ofList value)
  | value => some (String.ofList value)

def step (options : List CommandOption) (s : State) : Word → Except UsageFault State
  | .separator => .error .unknownArgument
  | .long "help" none => s.askHelp
  | .long "help" (some _) => .error .unneededValue
  | .long name value =>
    match options.find? fun o => o.long == name with
    | some option => s.begin option value
    | none => .error .unknownArgument
  | .short 'h' _ => s.askHelp
  | .short letter rest =>
    match options.find? fun o => o.short? == some letter with
    | some option => s.begin option (attached rest)
    | none => .error .unknownArgument
  | .plain text =>
    match s.pending with
    | some ⟨option, none⟩ => .ok ⟨s.given, some ⟨option, some text⟩⟩
    | _ => .error .unknownArgument

end State

/-- Reads the options of a command; two hyphens may end them, and nothing follows those. -/
def readOptions (options : List CommandOption) (s : State) :
    List String → Except UsageFault Given
  | [] => s.settle
  | ["--"] => s.settle
  | arg :: rest => do readOptions options (← s.step options (.ofText arg)) rest

def required {β : Type} : Option β → Except UsageFault β
  | some v => .ok v
  | none => .error .missingOption

/-- The symbol and the date that a formula is validated for by default. -/
def sampleSymbol : String := "SAMPLE"

def sampleDate : Date := (Date.ofCivil? 2024 1 2).get (by decide)

def Given.command (g : Given) : CommandName → Except UsageFault Command
  | .backtest => return .backtest (← required g.config) g.output
  | .scores => return .scores (← required g.config) (← required g.date)
  | .holdings => return .holdings (← required g.config)
  | .validate => do
    let expression ← required g.expression
    return .validate expression (g.symbol.getD sampleSymbol) (g.date.getD sampleDate)

/-- What follows the word `help`: at most the name of a command. -/
def readHelp : List String → UsageFault
  | [] => .help
  | [name] => if name == "help" || (CommandName.ofText? name).isSome then .help else .unknownCommand
  | _ => .unknownCommand

def misplaced : Word → UsageFault
  | .separator => .noCommand
  | .long "help" none => .help
  | .long "help" (some _) => .unneededValue
  | .long _ _ => .unknownArgument
  | .short 'h' _ => .help
  | .short _ _ => .unknownArgument
  | .plain _ => .unknownCommand

/-- What follows two hyphens in place of a command. -/
def afterSeparator : List String → UsageFault
  | [] => .noCommand
  | name :: _ =>
    if name == "help" || (CommandName.ofText? name).isSome then .unknownArgument
    else .unknownCommand

def read : List String → Except UsageFault Command
  | [] => .error .noCommand
  | "help" :: rest => .error (readHelp rest)
  | "--" :: rest => .error (afterSeparator rest)
  | first :: rest =>
    match CommandName.ofText? first with
    | none => .error (misplaced (.ofText first))
    | some name => do (← readOptions name.options ⟨.nothing, none⟩ rest).command name

end FactorPortfolio.Arguments
