import RuleLens.Config.Basic
import RuleLens.IoError
import RuleLens.Text.Blank

/-!
# Layers of configuration

The settings of a project lie over those of its user, and variables of the environment over both.
-/

namespace RuleLens

/-- Why there is no configuration. -/
inductive ConfigError where
  | parse
  | missing (path : Path) (isGlobal : Bool)
  | alreadyExists (path : Path)
  | badTimeout (value : String)
  | editorNotStarted (editor : String) (cause : IoError)
  | editorFailed
  | io (cause : IoError)
deriving Repr, DecidableEq

namespace ConfigError

/-- The text for a setting that cannot be used. -/
def invalidValue (key reason : String) : String :=
  "Invalid value for '" ++ key ++ "': " ++ reason

def message : ConfigError → String
  | .parse => "Config parse error: the file is no valid configuration"
  | .missing path isGlobal =>
    "Config file does not exist: " ++ path.text ++ "\nRun: yaralens config init" ++
      (if isGlobal then " --global" else "")
  | .alreadyExists path =>
    invalidValue "config"
      ("Config already exists: " ++ path.text ++ ". Use --force to overwrite.")
  | .badTimeout value =>
    invalidValue "YARALENS_COMPILE_TIMEOUT" ("expected seconds, got '" ++ value ++ "'")
  | .editorNotStarted editor cause =>
    invalidValue "editor" ("Failed to launch editor '" ++ editor ++ "': " ++ cause.message)
  | .editorFailed => invalidValue "editor" "Editor exited with error"
  | .io cause => cause.message

end ConfigError

namespace Config

/-- The upper of two layers counts where it differs from the default. -/
def pick [DecidableEq α] (default lower upper : α) : α :=
  if upper = default then lower else upper

/-- Lay the settings of `upper` over those of `lower`. -/
def overlay (lower upper : Config) : Config where
  compiler :=
    { installPath := upper.compiler.installPath <|> lower.compiler.installPath
      compileFlags := upper.compiler.compileFlags <|> lower.compiler.compileFlags
      timeoutSecs :=
        pick default.compiler.timeoutSecs lower.compiler.timeoutSecs upper.compiler.timeoutSecs }
  completion :=
    { requireImports := lower.completion.requireImports || upper.completion.requireImports }
  workspace :=
    { maxFiles := pick default.workspace.maxFiles lower.workspace.maxFiles upper.workspace.maxFiles
      maxConcurrent :=
        pick default.workspace.maxConcurrent lower.workspace.maxConcurrent
          upper.workspace.maxConcurrent
      maxFileSizeMb :=
        pick default.workspace.maxFileSizeMb lower.workspace.maxFileSizeMb
          upper.workspace.maxFileSizeMb
      ignoredPaths :=
        pick default.workspace.ignoredPaths lower.workspace.ignoredPaths
          upper.workspace.ignoredPaths }

end Config

/-- The variables that are set, with their values. -/
abbrev Environment := List (String × String)

namespace Config

/-- The compiler's directory from the environment; an empty one does not count. -/
def withInstallPath (env : Environment) (c : CompilerConfig) : CompilerConfig :=
  match env.lookup "YARALENS_INSTALL_PATH" with
  | some dir => if dir.isEmpty then c else { c with installPath := some dir }
  | none => c

/-- The compiler's options from the environment, divided by blanks. -/
def withCompileFlags (env : Environment) (c : CompilerConfig) : CompilerConfig :=
  match env.lookup "YARALENS_COMPILE_FLAGS" with
  | some value =>
    { c with compileFlags := some (.many ((Text.words value.toList).map String.ofList)) }
  | none => c

/-- The compiler's time limit from the environment. -/
def withTimeout (env : Environment) (c : CompilerConfig) : Except ConfigError CompilerConfig :=
  match env.lookup "YARALENS_COMPILE_TIMEOUT" with
  | some value =>
    match Text.readUpTo? Text.max64 value.toList with
    | some seconds => .ok { c with timeoutSecs := seconds }
    | none => .error (.badTimeout value)
  | none => .ok c

/-- Lay the variables of the environment over a configuration. -/
def withEnvironment (env : Environment) (c : Config) : Except ConfigError Config := do
  let compiler ← withTimeout env (withCompileFlags env (withInstallPath env c.compiler))
  return { c with compiler }

end Config

end RuleLens
