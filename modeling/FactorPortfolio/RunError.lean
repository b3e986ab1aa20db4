import FactorPortfolio.Formula.Parser
import FactorPortfolio.Formula.Fault
import FactorPortfolio.Store.Basic
import FactorPortfolio.Target.Fault

/-! # Why a run ends early

The faults that end a whole run, with the text and the exit code of each. `reversedWindow` is no
report of a run but its breakdown: a series was to be cut from a later date to an earlier one.
-/

namespace FactorPortfolio

inductive SymbolListFault where
  | emptyToken
  | duplicate (symbol : Symbol)
  deriving DecidableEq

inductive SettingFault where
  | unknownSource (source : String)
  | dateFormat (key : String)
  | startAfterEnd
  | notPositive (key : String)
  | negative (key : String)
  | below (key : String) (least : Nat)
  | intensityRange
  | unlistedWeighting
  | unknownWeighting (name : String)
  | symbols (fault : SymbolListFault)
  deriving DecidableEq

inductive FileFault where
  | notFound
  | notFolder
  | isFolder
  | nameTooLong
  /-- A zero stands in the path. -/
  | zeroInName
  | notText
  | other (reason : String)
  deriving DecidableEq

/-- The engine contradicts itself. -/
inductive InternalFault (α : Type) where
  /-- An evaluation looked up what its dry run had not met. -/
  | unforeseenLookup (e : EvalError α)
  | noScores (date : Date)

inductive RunError (α : Type) where
  | store (e : StoreError)
  | settingsSyntax (file : String) (line : Nat)
  | unreadableSettings (file : String)
  | missingSetting (group key : String)
  | badSetting (group key : String) (fault : SettingFault)
  | formulaParse (e : ParseError)
  | formula (e : EvalError α)
  | internal (fault : InternalFault α)
  | cancelled
  | noInputs
  | noPriceData
  | noTradingDays (start stop : Date)
  | missingHoldingPrice (symbol : Symbol) (date : Date)
  | target (e : TargetError α)
  | tooManyFailures (percent : α) (first : List (SkippedDay α))
  | output (fault : FileFault)
  | reversedWindow (symbol : Symbol) (start stop : Date)

open Decimal

def SymbolListFault.message : SymbolListFault → String
  | emptyToken => "empty token in symbol list"
  | duplicate symbol => "duplicate symbol: " ++ symbol

def SettingFault.message : SettingFault → String
  | unknownSource source =>
    "unknown source '" ++ source ++ "', expected one of csv, sqlite, memory"
  | dateFormat key => "invalid " ++ key ++ " format, expected YYYY-MM-DD"
  | startAfterEnd => "start_date must not be after end_date"
  | notPositive key => key ++ " must be positive"
  | negative key => key ++ " must be non-negative"
  | below key least => key ++ " must be at least " ++ natText least
  | intensityRange => "factor_intensity must be in (0, 1]"
  | unlistedWeighting => "expected one of zscore, equal"
  | unknownWeighting name => "unknown weighting '" ++ name ++ "'"
  | symbols fault => fault.message

def FileFault.message : FileFault → String
  | notFound => "No such file or directory (os error 2)"
  | notFolder => "Not a directory (os error 20)"
  | isFolder => "Is a directory (os error 21)"
  | nameTooLong => "File name too long (os error 36)"
  | zeroInName => "file name contained an unexpected NUL byte"
  | notText => "stream did not contain valid UTF-8"
  | other reason => reason

def FileFault.isAbsence : FileFault → Bool
  | notFound | notFolder | nameTooLong | zeroInName => true
  | isFolder | notText | other _ => false

variable {α : Type} [Scalar α]

def InternalFault.message : InternalFault α → String
  | unforeseenLookup e => "cache lookup outside dry-run requirements: " ++ e.message
  | noScores date => "no factor scores computed for " ++ date.text

namespace RunError

def message : RunError α → String
  | store e => "store error: " ++ e.message
  | settingsSyntax file line =>
    "config parse error in " ++ file ++ ": line " ++ natText line ++ " is no setting"
  | unreadableSettings file => "config parse error in " ++ file ++ ": it cannot be read"
  | missingSetting group key => "missing config key [" ++ group ++ "] " ++ key
  | badSetting group key fault =>
    "invalid config value [" ++ group ++ "] " ++ key ++ ": " ++ fault.message
  | formulaParse e => e.message
  | formula e => "formula error: " ++ e.message
  | internal fault => "internal fault: " ++ fault.message
  | cancelled => "score computation cancelled"
  | noInputs => "no (date, symbol) pairs to score"
  | noPriceData => "price store has no trading days"
  | noTradingDays start stop =>
    "no trading days between " ++ start.text ++ " and " ++ stop.text
  | missingHoldingPrice symbol date =>
    "missing price for held symbol " ++ symbol ++ " on " ++ date.text
  | target e => e.message
  | tooManyFailures percent first =>
    "too many backtest errors (" ++ Scalar.fixed 1 percent ++ " %). first " ++
      natText first.length ++ ": " ++ "; ".intercalate (first.map SkippedDay.message)
  | output fault => fault.message
  | reversedWindow symbol start stop =>
    "the window of " ++ symbol ++ " starts on " ++ start.text ++ ", after its end on " ++ stop.text

def exitCode : RunError α → Nat
  | output _ => 1
  | settingsSyntax _ _ => 2
  | unreadableSettings _ => 2
  | missingSetting _ _ => 2
  | badSetting _ _ _ => 2
  | store _ => 3
  | formulaParse _ => 4
  | formula _ => 4
  | noInputs => 5
  | noPriceData => 5
  | noTradingDays _ _ => 5
  | missingHoldingPrice _ _ => 5
  | target _ => 5
  | tooManyFailures _ _ => 6
  | internal _ => 7
  | cancelled => 7
  | reversedWindow _ _ _ => 101

end RunError

def liftStore {β : Type} (r : Except StoreError β) : Except (RunError α) β := r.mapError .store

end FactorPortfolio
