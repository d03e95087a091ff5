import RuleLens.Command.Basic
import RuleLens.Compiler.Batch
import RuleLens.Config.Store
import RuleLens.Location.Resolve
import RuleLens.Module.Completion
import RuleLens.Symbol.References

/-!
# Sessions

A session runs one command in a world, under the configuration in force there.  Each command answers
with one JSON object.  A request that cannot be met is answered with its error; only a location that
cannot be read also fails the program.
-/

namespace RuleLens

/-- What a command leaves behind: its exit code, what it wrote, and the world. -/
structure Reply where
  exitCode : Nat
  stdout : String
  world : World

/-- An answer, or the words for why there is none. -/
abbrev Answer := Except String Json

namespace Answer

def of (message : ε → String) (encode : α → Json) : Except ε α → Answer
  | .ok a => .ok (encode a)
  | .error e => .error (message e)

/-- The object that is printed. -/
def toJson : Answer → Json
  | .ok json => json.insert "success" (.bool true)
  | .error message => .obj [("success", .bool false), ("error", .str message)]

end Answer

structure Session where
  world : World
  config : Config

namespace Session

/-- The root of the workspace. -/
def root (s : Session) : Path := s.world.cwdPath

def compiler (s : Session) : Compiler :=
  .ofConfig s.config.compiler s.config.limits.compileTimeout

/-- The size of the largest file that is read. -/
def maxFileBytes (s : Session) : Nat := s.config.limits.maxFileBytes

/-- The session in a world.  A configuration that cannot be used counts as none. -/
def ofWorld (w : World) : Session :=
  match Config.load w w.cwdPath false with
  | .ok config => ⟨w, config⟩
  | .error _ => ⟨w, .default⟩

/-! ## Symbols -/

/-- Ask about a place in a file. -/
def ask (s : Session) (l : Location) (encode : α → Json) (q : Document → Position → Query α) :
    Answer :=
  .of AnalysisError.message encode do
    let doc ← s.world.load s.maxFileBytes l.file
    (q doc l.position).answer .never

def place (s : Session) (file : Path) (p : Position) : Json :=
  (Place.of s.root file p).toJson

def definition (s : Session) (l : Location) : Answer :=
  s.ask l (fun
    | some p => .obj [("definition", s.place l.file p)]
    | none => .obj [("message", .str "No definition found")]) Symbol.definition

def references (s : Session) (limit : Option Nat) (l : Location) : Answer :=
  s.ask l (fun found =>
    let shown := found.take (limit.getD found.length)
    .obj ([("count", .nat shown.length), ("references", .arr (shown.map (s.place l.file)))] ++
      if shown.length < found.length then [("truncated", .bool true)] else [])) Symbol.references

def symbol (s : Session) (l : Location) : Answer :=
  s.ask l (fun (symbol, scope) => symbolJson s.root l.file symbol scope) Symbol.inspect

def complete (s : Session) (l : Location) : Answer := do
  let doc ← (s.world.load s.maxFileBytes l.file).mapError AnalysisError.message
  match Completion.complete doc l.position s.config.completion.requireImports with
  | some found =>
    .ok (.obj [("count", .nat found.length),
      ("items", .arr (found.map fun m => .obj [("name", .str m.1), ("kind", .str m.2.name)]))])
  | none => .error "Module is not imported in this file"

/-! ## Compiling -/

/-- The severities that a user names. -/
def readSeverities (names : List String) : Except String (List Severity) :=
  names.mapM fun name =>
    match Severity.ofName? name with
    | some severity => .ok severity
    | none => .error (Severity.unknownMessage name)

/-- Compile a file.  Only the listed diagnostics are narrowed to some severities, not the counts. -/
def compileFile (s : Session) (file : Path) (severities : Option (List String)) : Answer := do
  let shown ← severities.mapM readSeverities
  let report ← (Batch.compileFile s.compiler s.world s.maxFileBytes (s.root.join file)).mapError
    Failure.message
  let response := report.response s.root
  let diagnostics := match shown with
    | some shown => response.diagnostics.filter fun d => shown.contains d.severity
    | none => response.diagnostics
  return { response with diagnostics }.toJson

def compileAll (s : Session) (dir : Option Path) (limit : Option Nat) : Answer :=
  let dir := match dir with
    | some p => s.root.join p
    | none => s.root
  .of Failure.message
    (fun batch =>
      let files := batch.map (Batch.response s.root)
      .obj [("root", .str (dir.relativeTo s.root)), ("file_count", .nat files.length),
        ("failed_count", .nat (files.countP (!·.compiled))),
        ("files", .arr (files.map (·.toJson)))])
    (Batch.compileAll s.compiler s.world s.maxFileBytes (.ofWorkspace s.config.workspace) dir
      (limit.getD s.config.workspace.maxFiles))

/-! ## Configuration -/

def stringsJson (items : List String) : Json :=
  .arr (items.map .str)

def configJson (c : Config) : Json :=
  .obj [
    ("compiler", .obj [
      ("command", .str c.compiler.command.text),
      ("install_path", (c.compiler.installPath.map Json.str).getD .null),
      ("compile_flags", stringsJson c.compiler.flagArgs),
      ("timeout_secs", .nat c.compiler.timeoutSecs)]),
    ("completion", .obj [("require_imports", .bool c.completion.requireImports)]),
    ("workspace", .obj [
      ("max_files", .nat c.workspace.maxFiles),
      ("max_concurrent", .nat c.workspace.maxConcurrent),
      ("max_file_size_mb", .nat c.workspace.maxFileSizeMb),
      ("ignored_paths", stringsJson c.workspace.ignoredPaths)])]

def levelName (isGlobal : Bool) : String :=
  if isGlobal then "global" else "project"

/-- The path of a configuration file as users read it. -/
def shownPath (s : Session) (isGlobal : Bool) (p : Path) : Json :=
  .str (if isGlobal then p.text else p.relativeTo s.root)

def configShow (s : Session) (isGlobal : Bool) : Answer :=
  .of ConfigError.message
    (fun config => .obj [("level", .str (if isGlobal then "global" else "merged")),
      ("config", configJson config)])
    (Config.load s.world s.root isGlobal)

def configPath (s : Session) (isGlobal : Bool) : Answer :=
  let p := Config.path s.world s.root isGlobal
  .ok (.obj [("level", .str (levelName isGlobal)), ("path", s.shownPath isGlobal p),
    ("exists", .bool (s.world.pathExists p))])

/-! ## Health -/

/-- What the doctor says about the compiler. -/
def compilerJson (s : Session) : Json :=
  let compiler := s.compiler
  let installed := compiler.isInstalled s.world
  .obj ([("command", .str compiler.command.text), ("installed", .bool installed)] ++
    (if installed then Json.optional "version" ((compiler.version? s.world).map .ofChars)
      else [("install_command", .str "apt install yara  OR  set compiler.install_path")]) ++
    if compiler.flags.isEmpty then [] else [("flags", stringsJson compiler.flags)])

def doctor (s : Session) (missingOnly : Bool) : Answer :=
  let installed := s.compiler.isInstalled s.world
  let files := [true, false].map fun isGlobal =>
    let p := Config.path s.world s.root isGlobal
    (levelName isGlobal, p, s.world.pathExists p)
  let shown := files.filter fun (_, _, found) => !missingOnly || !found
  .ok (.obj ([
    ("summary", .obj [("compiler_installed", .bool installed),
      ("configs_found", .nat (files.countP (·.2.2)))]),
    ("configs", .arr (shown.map fun (level, p, found) =>
      .obj [("level", .str level), ("path", .str p.text), ("exists", .bool found)]))] ++
    if missingOnly && installed then [] else [("compiler", s.compilerJson)]))

/-! ## Running -/

/-- The reply with an answer, behind what was written before. -/
def reply (w : World) (written : List UInt8) (a : Answer) : Reply :=
  ⟨0, String.ofList (Text.Utf8.decodeLossy written) ++ a.toJson.toText ++ "\n", w⟩

/-- Answer about the place that a text means, or fail the program. -/
def replyAt (s : Session) (l : Except LocationError Location) (next : Location → Answer) : Reply :=
  match l with
  | .ok l => reply s.world [] (next l)
  | .error e => { reply s.world [] (.error e.message) with exitCode := 2 }

def run (s : Session) : Command → Reply
  | .definition text => s.replyAt (Location.resolve s.world text) s.definition
  | .references text limit => s.replyAt (Location.resolve s.world text) (s.references limit)
  | .symbol text => s.replyAt (Location.resolve s.world text) s.symbol
  | .complete text => s.replyAt (Location.resolveExact s.world text) s.complete
  | .compileFile file severities => reply s.world [] (s.compileFile file severities)
  | .compileAll dir limit => reply s.world [] (s.compileAll dir limit)
  | .configInit isGlobal force =>
    let (w, result) := Config.init s.world s.root isGlobal force
    reply w []
      (.of ConfigError.message
        (fun p => .obj [("status", .str "created"), ("path", s.shownPath isGlobal p),
          ("level", .str (levelName isGlobal))]) result)
  | .configShow isGlobal => reply s.world [] (s.configShow isGlobal)
  | .configPath isGlobal => reply s.world [] (s.configPath isGlobal)
  | .configEdit isGlobal =>
    let (written, result) := Config.edit s.world s.root isGlobal
    reply s.world written
      (.of ConfigError.message
        (fun p => .obj [("status", .str "opened"), ("path", s.shownPath isGlobal p)]) result)
  | .doctor missingOnly => reply s.world [] (s.doctor missingOnly)

/-- Run a command line in a world.  The program was started by the name `program`. -/
def runArgs (w : World) (program : String) (args : List String) : Reply :=
  match Command.ofArgs args with
  | .run command => (ofWorld w).run command
  | .version name => ⟨0, name ++ " 1.0.0\n", w⟩
  | .help page => ⟨0, page.render program, w⟩
  | .wrong => ⟨2, "", w⟩

end Session

end RuleLens
