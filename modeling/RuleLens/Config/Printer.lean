import RuleLens.Config.Basic

/-!
# Writing a configuration

The text of a configuration file: one section after the other, lists with an item on each line,
options that are not set left out.
-/

namespace RuleLens.Config

/-- A text between quotes. -/
def quoted (s : String) : String :=
  let escape (c : Char) := if c = '"' || c = '\\' then ['\\', c] else [c]
  String.ofList ('"' :: s.toList.flatMap escape ++ ['"'])

def listed (items : List String) : String :=
  if items.isEmpty then "[]"
  else "[\n" ++ String.join (items.map fun s => "    " ++ quoted s ++ ",\n") ++ "]"

/-- One line of a section. -/
def entry (name value : String) : String :=
  name ++ " = " ++ value ++ "\n"

def flagsText : CompileFlags → String
  | .one flag => quoted flag
  | .many flags => listed flags

def toText (c : Config) : String :=
  "[compiler]\n" ++
  ((c.compiler.installPath.map fun dir => entry "install_path" (quoted dir)).getD "") ++
  ((c.compiler.compileFlags.map fun f => entry "compile_flags" (flagsText f)).getD "") ++
  entry "timeout_secs" (toString c.compiler.timeoutSecs) ++
  "\n[completion]\n" ++
  entry "require_imports" (if c.completion.requireImports then "true" else "false") ++
  "\n[workspace]\n" ++
  entry "max_files" (toString c.workspace.maxFiles) ++
  entry "max_concurrent" (toString c.workspace.maxConcurrent) ++
  entry "max_file_size_mb" (toString c.workspace.maxFileSizeMb) ++
  entry "ignored_paths" (listed c.workspace.ignoredPaths)

end RuleLens.Config
