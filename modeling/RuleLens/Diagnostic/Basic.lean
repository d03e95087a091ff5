import RuleLens.Position
import RuleLens.Path

/-!
# Diagnostics

What the rule compiler says about a file: messages with a severity and a place, and the report of
one run.
-/

namespace RuleLens

inductive Severity where
  | error
  | warning
deriving Repr, DecidableEq

namespace Severity

def name : Severity → String
  | .error => "error"
  | .warning => "warning"

/-- The severity in the second field of a compiler message: whatever is no error is a warning. -/
def ofField (field : Option (List Char)) : Severity :=
  if field = some ['e', 'r', 'r', 'o', 'r'] then .error else .warning

/-- The severity that a user names, in any case.  Only ASCII letters have an ASCII letter of these
words as their small form. -/
def ofName? (text : String) : Option Severity :=
  let word := String.ofList (text.toList.map Char.toLower)
  if word = "error" || word = "e" then some .error
  else if word = "warning" || word = "warn" || word = "w" then some .warning
  else none

/-- What to tell a user who names no severity. -/
def unknownMessage (text : String) : String :=
  "Unknown severity: '" ++ text ++ "'. Valid: error, warning"

end Severity

structure Diagnostic where
  range : Range
  severity : Severity
  message : List Char
deriving Repr, DecidableEq

namespace Diagnostic

/-- The tool that all diagnostics come from. -/
def source : String := "yarac"

def isError (d : Diagnostic) : Bool :=
  d.severity = .error

end Diagnostic

/-- The outcome of one run of the compiler.  A run that a signal ended has no exit code. -/
structure CompileReport where
  file : Path
  diagnostics : List Diagnostic
  exitCode : Option Int
deriving Repr, DecidableEq

namespace CompileReport

def errorCount (r : CompileReport) : Nat :=
  r.diagnostics.countP (·.isError)

def warningCount (r : CompileReport) : Nat :=
  r.diagnostics.length - r.errorCount

/-- A run succeeds if it reports no error and does not fail by its exit code. -/
def success (r : CompileReport) : Bool :=
  r.errorCount == 0 && (r.exitCode.getD 0 == 0)

end CompileReport

end RuleLens
