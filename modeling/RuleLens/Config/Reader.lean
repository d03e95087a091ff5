import RuleLens.Config.Basic
import RuleLens.Toml.Reader

/-!
# Reading a configuration

A configuration file is a TOML document.  What it leaves out keeps its default, what is unknown is
passed over, and a value of the wrong type spoils the whole file.
-/

namespace RuleLens.Config

open Toml (Value)

/-- The named values of a section.  A section may also list its values in the order of its fields,
and a date counts as a section without known values. -/
def sectionFields? (names : List String) : Value → Option (List (String × Value))
  | .table entries => some entries
  | .array items => some (names.zip items)
  | .datetime _ => some []
  | _ => none

/-- A value of a section, or its default. -/
def fieldOr (entries : List (String × Value)) (name : String) (read? : Value → Option α)
    (default : α) : Option α :=
  match entries.lookup name with
  | some v => read? v
  | none => some default

def natUpTo? (bound : Nat) : Value → Option Nat
  | .integer n => if 0 ≤ n && n.toNat ≤ bound then some n.toNat else none
  | _ => none

def string? : Value → Option String
  | .string s => some s
  | _ => none

def bool? : Value → Option Bool
  | .boolean b => some b
  | _ => none

def strings? : Value → Option (List String)
  | .array items => items.mapM string?
  | _ => none

def flags? : Value → Option CompileFlags
  | .string s => some (.one s)
  | v => (strings? v).map .many

def compiler? (v : Value) : Option CompilerConfig := do
  let entries ← sectionFields? ["install_path", "compile_flags", "timeout_secs"] v
  let d : CompilerConfig := {}
  let installPath ← fieldOr entries "install_path" (fun v => (string? v).map some) d.installPath
  let compileFlags ← fieldOr entries "compile_flags" (fun v => (flags? v).map some) d.compileFlags
  let timeoutSecs ← fieldOr entries "timeout_secs" (natUpTo? Text.max64) d.timeoutSecs
  some { installPath, compileFlags, timeoutSecs }

def completion? (v : Value) : Option CompletionConfig := do
  let entries ← sectionFields? ["require_imports"] v
  let d : CompletionConfig := {}
  let requireImports ← fieldOr entries "require_imports" bool? d.requireImports
  some { requireImports }

def workspace? (v : Value) : Option WorkspaceConfig := do
  let entries ← sectionFields?
    ["max_files", "max_concurrent", "max_file_size_mb", "ignored_paths"] v
  let d : WorkspaceConfig := {}
  let maxFiles ← fieldOr entries "max_files" (natUpTo? Text.max64) d.maxFiles
  let maxConcurrent ← fieldOr entries "max_concurrent" (natUpTo? Text.max64) d.maxConcurrent
  let maxFileSizeMb ← fieldOr entries "max_file_size_mb" (natUpTo? Text.max32) d.maxFileSizeMb
  let ignoredPaths ← fieldOr entries "ignored_paths" strings? d.ignoredPaths
  some { maxFiles, maxConcurrent, maxFileSizeMb, ignoredPaths }

/-- The configuration that a text describes. -/
def ofChars? (text : List Char) : Option Config := do
  let entries ← Toml.read? text
  let compiler ← fieldOr entries "compiler" compiler? {}
  let completion ← fieldOr entries "completion" completion? {}
  let workspace ← fieldOr entries "workspace" workspace? {}
  some { compiler, completion, workspace }

end RuleLens.Config
