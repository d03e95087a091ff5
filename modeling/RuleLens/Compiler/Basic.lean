import RuleLens.Config.Basic
import RuleLens.Diagnostic.Line
import RuleLens.World.Basic

/-!
# The rule compiler

The compiler is started with its options, the rule file and a file for its output.  What it writes
to standard error is read line by line into the report of the run.
-/

namespace RuleLens

structure Compiler where
  command : Path
  flags : List String
  /-- How long a run may take, in seconds. -/
  timeout : Option Nat
deriving Repr, DecidableEq

namespace Compiler

/-- The configured compiler. -/
def ofConfig (c : CompilerConfig) (timeout : Option Nat) : Compiler :=
  ⟨c.command, c.flagArgs, timeout⟩

/-- The lines of a byte stream: what line feeds divide, without an empty last piece. -/
def streamLines (bytes : List UInt8) : List (List UInt8) :=
  let pieces := bytes.splitOn 0x0a
  if pieces.getLastD [] = [] then pieces.dropLast else pieces

/-- A line of compiler output as text, without a carriage return at its end. -/
def lineText (bytes : List UInt8) : List Char :=
  Document.dropReturn (Text.Utf8.decodeLossy bytes)

/-- The diagnostics on the lines of compiler output, unless one of them complains about an
option. -/
def diagnosticsOf (doc : Document) (lines : List (List UInt8)) :
    Except CompileError (List Diagnostic) := do
  let found ← lines.mapM fun line => Diagnostic.ofLine doc (lineText line)
  return found.filterMap id

/-- The report of a run, or the error that it ended in.  A run without an end is waited for as long
as its limit says; without a limit there is no answer to give but to name that. -/
def reportOf (c : Compiler) (file : Path) (doc : Document) (run : Run) :
    Except CompileError CompileReport := do
  let diagnostics ← diagnosticsOf doc (streamLines run.stderr)
  match run.ending with
  | .never => throw (.timeout (c.timeout.getD 0))
  | _ => return ⟨file, diagnostics, run.exitCode?⟩

/-- Where the compiler writes its output, which nobody reads. -/
def outputFile : String := "/tmp/rules.out"

/-- Compile a file, whose text is `doc`. -/
def compile (c : Compiler) (w : World) (file : Path) (doc : Document) :
    Except CompileError CompileReport :=
  match w.launch c.command (c.flags ++ [file.text, outputFile]) with
  | .error cause => .error (.ofSpawnFailure c.command cause)
  | .ok run => c.reportOf file doc run

/-- The first line that is not blank, trimmed. -/
def firstLine? (text : List Char) : Option (List Char) :=
  ((text.splitOn '\n').map Text.trim).find? (!·.isEmpty)

/-- What the compiler says about its version. -/
def version? (c : Compiler) (w : World) : Option (List Char) :=
  match w.launch c.command ["--version"] with
  | .error _ => none
  | .ok run =>
    let stdout := Text.Utf8.decodeLossy run.stdout
    if !run.succeeded then none
    else if (Text.trim stdout).isEmpty then firstLine? (Text.Utf8.decodeLossy run.stderr)
    else firstLine? stdout

/-- The tool that looks up commands by their names. -/
def lookupTool : Path := ⟨"which"⟩

/-- Whether the compiler is there: at its path, or found by its name, or at least started. -/
def isInstalled (c : Compiler) (w : World) : Bool :=
  if c.command.components.length > 1 then w.isFile c.command
  else
    ((w.launch lookupTool [c.command.text]).isOk && w.onSearchPath c.command) ||
      (c.version? w).isSome

end Compiler

end RuleLens
