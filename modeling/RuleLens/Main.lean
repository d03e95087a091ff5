import RuleLens.Session

/-!
# The command line

The outer layer of the program.  It takes the files that a command may look at into a file tree,
runs the command there, prints its answer, and writes to the disk what the command has changed.  It
starts no other programs: for this layer none of the files is one.
-/

namespace RuleLens.CommandLine

/-- What a disk is asked for. -/
structure Disk where
  isDirectory : String → IO Bool
  /-- The names in a directory, and whether they are directories themselves.  Links are neither
  followed nor listed. -/
  entries : String → IO (List (String × Bool))

/-- The path that names lead along. -/
def pathText (names : Names) : String :=
  "/" ++ "/".intercalate names

/-- The names that a path leads along, without a look at the disk. -/
def namesFrom (cwd : Names) (p : Path) : Names :=
  p.components.foldl (fun names c =>
    match c with
    | .root => []
    | .current => names
    | .parent => names.dropLast
    | .name text => names ++ [text]) cwd

/-- Take in the entry at some names, as far as the disk has it. -/
def addEntry (disk : Disk) (t : FileTree) (names : Names) : IO FileTree := do
  let mut t := t
  for n in List.range names.length do
    let way := names.take (n + 1)
    if ← disk.isDirectory (pathText way) then
      t := t.insert way .directory
    else
      try
        t := t.insert way (.file (← IO.FS.readBinFile (pathText way)) false)
      catch _ => pure ()
  return t

/-- Whether a command may look into a file that it is not told about. -/
def isLookedInto (name : String) : Bool :=
  Path.isRuleFile ⟨name⟩ ||
    [".ignore", ".gitignore", ".git", "exclude", "ignore", "config.toml"].contains name

/-- Take in all that lies below a directory. -/
partial def addBelow (disk : Disk) (t : FileTree) (names : Names) : IO FileTree := do
  let mut t := t
  for (name, isDirectory) in ← (disk.entries (pathText names) <|> pure []) do
    let inside := names ++ [name]
    if isDirectory then
      t ← addBelow disk (t.insert inside .directory) inside
    else if isLookedInto name then
      t ← addEntry disk t inside
    else
      t := t.insert inside (.file ByteArray.empty false)
  return t

/-- Take in the ignore files above some names. -/
def addIgnoreFiles (disk : Disk) (t : FileTree) (names : Names) : IO FileTree := do
  let mut t := t
  for n in List.range names.length do
    for file in [[".ignore"], [".gitignore"], [".git", "info", "exclude"]] do
      t ← addEntry disk t (names.take n ++ file)
  return t

/-- Take in what a path leads to, and the ignore files above it. -/
def addPath (disk : Disk) (t : FileTree) (names : Names) : IO FileTree := do
  let t ← addIgnoreFiles disk (← addEntry disk t names) names
  if ← disk.isDirectory (pathText names) then addBelow disk t names else return t

/-- The paths that an argument may name: the whole of it, the file of a location, or what follows
an equals sign. -/
def pathsOf (arg : String) : List Path :=
  let located := match Location.ofString arg with
    | .ok l => [l.file]
    | .error _ => []
  let valued := (Arguments.cutLong arg.toList).2.toList.map fun value => ⟨value⟩
  ⟨arg⟩ :: located ++ valued

/-- The variables that count. -/
def countedVariables : List String :=
  ["HOME", "XDG_CONFIG_HOME", "PATH", "EDITOR", "YARALENS_INSTALL_PATH", "YARALENS_COMPILE_FLAGS",
    "YARALENS_COMPILE_TIMEOUT"]

/-- The world as a command with these arguments may see it. -/
def worldOf (disk : Disk) (cwd : Path) (args : List String) : IO World := do
  let env ← countedVariables.filterMapM fun name => do
    return (← IO.getEnv name).map fun value => (name, value)
  let names := namesFrom [] cwd
  let outside : World := ⟨.empty, names, env, ⟨"/"⟩, []⟩
  let settings := [true, false].map (Config.path outside cwd) ++
    IgnoreSettings.files outside ++ [(IgnoreSettings.directory outside).join ⟨"git/ignore"⟩]
  let mut t ← addPath disk .empty names
  for p in settings ++ args.flatMap pathsOf do
    t ← addPath disk t (namesFrom names p)
  let world := { outside with files := t }
  return { world with files := ← addEntry disk t (namesFrom names (IgnoreSettings.userFile world)) }

/-- Whether a file tree has exactly this entry. -/
def hasEntry (t : FileTree) (names : Names) (node : Node) : Bool :=
  match t.get? names, node with
  | some (.file old _), .file new _ => old == new
  | some .directory, .directory => true
  | _, _ => false

/-- Write the entries of `t` that are new or have changed since `before`. -/
def writeBack (before t : FileTree) : IO Unit := do
  for (names, node) in t.nodes.toList do
    unless hasEntry before names node do
      match node with
      | .directory => IO.FS.createDirAll (pathText names)
      | .file content _ => IO.FS.writeBinFile (pathText names) content

end RuleLens.CommandLine

open RuleLens in
/-- Run a command line. -/
def main (args : List String) : IO UInt32 := do
  let here ← IO.currentDir
  let disk : CommandLine.Disk :=
    { isDirectory := fun text => (here / text).isDir
      entries := fun text => do
        let found ← (here / text).readDir
        let kinds ← found.mapM fun entry =>
          return (entry.fileName, (← entry.path.symlinkMetadata).type)
        return kinds.toList.filterMap fun (name, kind) =>
          match kind with
          | .dir => some (name, true)
          | .file => some (name, false)
          | _ => none }
  let world ← CommandLine.worldOf disk ⟨here.toString⟩ args
  let reply := Session.runArgs world Command.programName args
  CommandLine.writeBack world.files reply.world.files
  IO.print reply.stdout
  return UInt32.ofNat reply.exitCode
