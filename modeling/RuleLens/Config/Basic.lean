import RuleLens.Path
import RuleLens.Text.Decimal

/-!
# Configuration

Where the rule compiler is and how to call it, what completion asks for, and how far a workspace
reaches.
-/

namespace RuleLens

/-- Extra options for the compiler, as one or as a list. -/
inductive CompileFlags where
  | one (flag : String)
  | many (flags : List String)
deriving Repr, DecidableEq

/-- The options as arguments: empty ones are left out. -/
def CompileFlags.toArgs : CompileFlags → List String
  | .one flag => if flag.isEmpty then [] else [flag]
  | .many flags => flags.filter (!·.isEmpty)

structure CompilerConfig where
  /-- The directory that holds the compiler; without one, the compiler is looked up by its name. -/
  installPath : Option String := none
  compileFlags : Option CompileFlags := none
  /-- How long the compiler may take, in seconds; 0 lets it run. -/
  timeoutSecs : Nat := 30
deriving Repr, DecidableEq

namespace CompilerConfig

def executable : Path := ⟨"yarac"⟩

/-- The command that starts the compiler. -/
def command (c : CompilerConfig) : Path :=
  match c.installPath with
  | some dir => Path.join ⟨dir⟩ executable
  | none => executable

def flagArgs (c : CompilerConfig) : List String :=
  (c.compileFlags.map CompileFlags.toArgs).getD []

end CompilerConfig

structure CompletionConfig where
  /-- Only modules that a document imports are completed. -/
  requireImports : Bool := false
deriving Repr, DecidableEq

structure WorkspaceConfig where
  maxFiles : Nat := 100
  maxConcurrent : Nat := 4
  /-- The size of the largest file that is read, in units of 2^20 bytes; 0 allows any size. -/
  maxFileSizeMb : Nat := 5
  ignoredPaths : List String := [".git", "node_modules", "target", ".yaralens"]
deriving Repr, DecidableEq

structure Config where
  compiler : CompilerConfig := {}
  completion : CompletionConfig := {}
  workspace : WorkspaceConfig := {}
deriving Repr, DecidableEq

namespace Config

def default : Config := {}

end Config

/-- What a configuration allows a running program. -/
structure Limits where
  /-- In seconds. -/
  compileTimeout : Option Nat
  maxFileBytes : Nat
  maxConcurrent : Nat
deriving Repr, DecidableEq

/-- The number of bytes in one unit of file size. -/
def bytesPerMb : Nat := 1024 * 1024

def Config.limits (c : Config) : Limits where
  compileTimeout := if c.compiler.timeoutSecs = 0 then none else some c.compiler.timeoutSecs
  maxFileBytes :=
    if c.workspace.maxFileSizeMb = 0 then Text.max64 else c.workspace.maxFileSizeMb * bytesPerMb
  maxConcurrent := max c.workspace.maxConcurrent 1

end RuleLens
