import RuleLens.Diagnostic.Basic
import RuleLens.Document
import RuleLens.IoError
import RuleLens.Text.Digit
import RuleLens.Text.Search

/-!
# Compiler messages

The compiler writes `<file>(<line>): <severity>: <message>`, one message on each line.  A line
without the number in brackets is dropped, unless it complains about an option.
-/

namespace RuleLens

/-- Why a file could not be compiled. -/
inductive CompileError where
  | compilerNotFound (command : Path)
  /-- The compiler refuses one of its options, in these words. -/
  | badFlag (line : List Char)
  | spawn (command : Path) (cause : IoError)
  | timeout (seconds : Nat)
  | io (cause : IoError)
deriving Repr, DecidableEq

namespace CompileError

/-- Errors that no other file would escape. -/
def isConfiguration : CompileError → Bool
  | .compilerNotFound _ | .badFlag _ => true
  | _ => false

/-- The error of a command that could not be started. -/
def ofSpawnFailure (command : Path) (cause : IoError) : CompileError :=
  if cause = .notFound then .compilerNotFound command else .spawn command cause

def message : CompileError → String
  | .compilerNotFound _ => "Cannot compile rule. Please specify an install path."
  | .badFlag line => "Compile flags: " ++ String.ofList line
  | .spawn command cause => "Failed to start compiler " ++ command.text ++ ": " ++ cause.message
  | .timeout seconds => s!"Compiler timed out after {seconds}s"
  | .io cause => cause.message

end CompileError

namespace Diagnostic

/-- The digits of the leftmost number in brackets. -/
def marker? : List Char → Option (List Char)
  | [] => none
  | '(' :: rest =>
    let digits := rest.takeWhile Text.isDigit
    if !digits.isEmpty && (rest.dropWhile Text.isDigit).head? = some ')' then some digits
    else marker? rest
  | _ :: rest => marker? rest

/-- The index of the line that a number in brackets denotes. -/
def lineIndex? (digits : List Char) : Option Nat := do
  match ← Text.ofDigits? digits with
  | 0 => none
  | n + 1 => if n + 1 ≤ Text.max32 then some n else none

/-- How the compiler complains about an option. -/
def optionComplaint : List Char := "unknown option".toList

/-- The diagnostic in one line of compiler output, for a compiled document.  A message on a line
that the document does not have is dropped. -/
def ofLine (doc : Document) (line : List Char) : Except CompileError (Option Diagnostic) :=
  let fields := Text.fields (Text.trim line)
  match marker? (fields.headD []) with
  | none =>
    if optionComplaint.isPrefixOf line then .error (.badFlag line) else .ok none
  | some digits =>
    .ok do
      let n ← lineIndex? digits
      let column ← doc.indent? n
      some ⟨Range.restOfLine n column, .ofField fields[1]?, fields.getLastD []⟩

end Diagnostic

end RuleLens
