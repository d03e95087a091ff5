import RuleLens.Config.Printer
import RuleLens.Config.Reader
import RuleLens.World.Basic

/-!
# Configuration files

A user has one configuration file, and every project one of its own.  A file that is not there
counts as one that says nothing.
-/

namespace RuleLens.Config

/-- The directory for the configuration of a user. -/
def userDirectory (w : World) : Path :=
  match w.env.lookup "XDG_CONFIG_HOME" with
  | some dir => ⟨dir⟩
  | none => w.homeDirectory.join ⟨".config"⟩

/-- The configuration file of the user, or of the project at `root`. -/
def path (w : World) (root : Path) (isGlobal : Bool) : Path :=
  let dir := if isGlobal then (userDirectory w).join ⟨"yaralens"⟩ else root.join ⟨".yaralens"⟩
  dir.join ⟨"config.toml"⟩

/-- The configuration in a file. -/
def loadFile (w : World) (p : Path) : Except ConfigError Config :=
  if !w.pathExists p then .ok default
  else
    match w.readText p with
    | .error cause => .error (.io cause)
    | .ok text =>
      match ofChars? text with
      | some c => .ok c
      | none => .error .parse

/-- The configuration of the user, or the one in force for the project at `root`. -/
def load (w : World) (root : Path) (isGlobal : Bool) : Except ConfigError Config :=
  if isGlobal then loadFile w (path w root true)
  else do
    let user ← loadFile w (path w root true)
    let project ← loadFile w (path w root false)
    withEnvironment w.env (overlay user project)

/-- Write a file, and the directories above it that are missing. -/
def writeWithParents (w : World) (p : Path) (text : String) : World × Except IoError Unit :=
  match w.files.makeDirectories w.cwd p.ancestors.tail with
  | (files, .error cause) => ({ w with files }, .error cause)
  | (files, .ok ()) =>
    match files.writeFile w.cwd p text.toUTF8 with
    | .error cause => ({ w with files }, .error cause)
    | .ok files => ({ w with files }, .ok ())

/-- Write the default configuration.  A file that is there already is kept unless `force` is
given. -/
def init (w : World) (root : Path) (isGlobal force : Bool) : World × Except ConfigError Path :=
  let p := path w root isGlobal
  if w.pathExists p && !force then (w, .error (.alreadyExists p))
  else
    match writeWithParents w p default.toText with
    | (w, .error cause) => (w, .error (.io cause))
    | (w, .ok ()) => (w, .ok p)

/-- The editor of the user. -/
def editor (w : World) : String :=
  (w.env.lookup "EDITOR").getD "vi"

/-- Open a configuration file in an editor.  Whatever the editor writes comes with the answer. -/
def edit (w : World) (root : Path) (isGlobal : Bool) : List UInt8 × Except ConfigError Path :=
  let p := path w root isGlobal
  if !w.pathExists p then ([], .error (.missing p isGlobal))
  else
    match w.launch ⟨editor w⟩ [p.text] with
    | .error cause => ([], .error (.editorNotStarted (editor w) cause))
    | .ok run => (run.stdout, if run.succeeded then .ok p else .error .editorFailed)

end RuleLens.Config
