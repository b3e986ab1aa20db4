import FactorPortfolio.Calendar.Text

/-! # Commands

What the program can be told to do, the options of each command, and the ways in which a command
line can be wrong.
-/

namespace FactorPortfolio

inductive Command where
  | backtest (config : String) (output : Option String)
  | scores (config : String) (date : Date)
  | holdings (config : String)
  | validate (expression symbol : String) (date : Date)
  deriving DecidableEq

inductive CommandName where
  | backtest
  | scores
  | holdings
  | validate
  deriving DecidableEq

/-- An option takes one value and is given at most once. -/
inductive CommandOption where
  | config
  | output
  | date
  | expression
  | symbol
  deriving DecidableEq

inductive UsageFault where
  /-- The help has been asked for. -/
  | help
  | noCommand
  | unknownCommand
  | unknownArgument
  | missingValue
  /-- A value stands at an option that takes none. -/
  | unneededValue
  | badValue
  | repeatedOption
  | missingOption
  deriving DecidableEq

namespace CommandName

def text : CommandName → String
  | backtest => "backtest"
  | scores => "scores"
  | holdings => "holdings"
  | validate => "validate"

def all : List CommandName := [backtest, scores, holdings, validate]

def ofText? (s : String) : Option CommandName := all.find? fun n => n.text == s

def options : CommandName → List CommandOption
  | backtest => [.config, .output]
  | scores => [.config, .date]
  | holdings => [.config]
  | validate => [.expression, .symbol, .date]

end CommandName

namespace CommandOption

/-- The name of an option after two hyphens. -/
def long : CommandOption → String
  | config => "config"
  | output => "output"
  | date => "date"
  | expression => "expression"
  | symbol => "symbol"

/-- The letter of an option after one hyphen. -/
def short? : CommandOption → Option Char
  | config => some 'c'
  | output => some 'o'
  | expression => some 'e'
  | date => none
  | symbol => none

end CommandOption

namespace UsageFault

def exitCode : UsageFault → Nat
  | help => 0
  | _ => 2

def message : UsageFault → String
  | help => "commands: backtest, scores, holdings, validate"
  | noCommand => "a command is needed: backtest, scores, holdings or validate"
  | unknownCommand => "there is no such command"
  | unknownArgument => "unexpected argument"
  | missingValue => "an option lacks its value"
  | unneededValue => "a value stands at an option that takes none"
  | badValue => "a value cannot be read"
  | repeatedOption => "an option is given twice"
  | missingOption => "a required option is missing"

end UsageFault

end FactorPortfolio
