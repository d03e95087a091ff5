import RuleLens.Diagnostic.Basic
import RuleLens.Output.Place

/-!
# Answers about a compiled file

What users read about one file: counts, and diagnostics with places counted from 1.
-/

namespace RuleLens

/-- What is said about one compiled file. -/
structure CompileResponse where
  file : String
  compiled : Bool
  errorCount : Nat
  warningCount : Nat
  exitCode : Option Int
  diagnostics : List Diagnostic
  /-- Why the file was not compiled at all. -/
  error : Option String
deriving Repr, DecidableEq

/-- The answer for a report, the file being shown as seen from `root`. -/
def CompileReport.response (r : CompileReport) (root : Path) : CompileResponse where
  file := r.file.relativeTo root
  compiled := r.success
  errorCount := r.errorCount
  warningCount := r.warningCount
  exitCode := r.exitCode
  diagnostics := r.diagnostics
  error := none

namespace CompileResponse

/-- The answer for a file that could not be compiled. -/
def failed (root file : Path) (error : String) : CompileResponse where
  file := file.relativeTo root
  compiled := false
  errorCount := 0
  warningCount := 0
  exitCode := none
  diagnostics := []
  error := some error

end CompileResponse

/-- A diagnostic for users. -/
def Diagnostic.toJson (d : Diagnostic) : Json :=
  .obj [("severity", .str d.severity.name), ("message", .ofChars d.message),
    ("line", .nat (d.range.start.line + 1)), ("column", .nat (d.range.start.character + 1)),
    ("end_line", .nat (d.range.stop.line + 1)), ("source", .str Diagnostic.source)]

def CompileResponse.toJson (r : CompileResponse) : Json :=
  .obj ([("file", .str r.file), ("compiled", .bool r.compiled), ("error_count", .nat r.errorCount),
    ("warning_count", .nat r.warningCount), ("diagnostics", .arr (r.diagnostics.map (·.toJson)))] ++
    Json.optional "exit_code" (r.exitCode.map .int) ++ Json.optional "error" (r.error.map .str))

end RuleLens
