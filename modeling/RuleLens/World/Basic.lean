import RuleLens.Config.Overlay
import RuleLens.Document
import RuleLens.Query
import RuleLens.World.Tree

/-!
# The world around a command

Everything a command can see: files, the current directory, variables, and what the programs among
the files do when they are started.
-/

namespace RuleLens

/-- How a process ends. -/
inductive Ending where
  | exited (code : Nat)
  | signalled
  /-- It keeps running. -/
  | never
deriving Repr, DecidableEq

/-- What a process writes, and how it ends. -/
structure Run where
  stdout : List UInt8
  stderr : List UInt8
  ending : Ending
deriving Repr, DecidableEq

namespace Run

def exitCode? (r : Run) : Option Int :=
  match r.ending with
  | .exited code => some code
  | _ => none

def succeeded (r : Run) : Bool :=
  r.ending = .exited 0

end Run

/-- What a program does, given the files and its arguments. -/
abbrev Program := FileTree → List String → Run

structure World where
  files : FileTree
  /-- The names of the current directory. -/
  cwd : Names
  env : Environment
  /-- The home directory that the system has on record for the user. -/
  home : Path
  /-- What the executable files do. -/
  programs : List (Names × Program)

namespace World

/-- The path of the current directory. -/
def cwdPath (w : World) : Path :=
  ⟨"/" ++ "/".intercalate w.cwd⟩

/-- The home directory of the user: the one in the environment, unless it is empty. -/
def homeDirectory (w : World) : Path :=
  match w.env.lookup "HOME" with
  | some home => if home.isEmpty then w.home else ⟨home⟩
  | none => w.home

def resolve (w : World) (p : Path) : Except IoError Names :=
  w.files.resolve w.cwd p

def node? (w : World) (p : Path) : Option Node :=
  match w.resolve p with
  | .ok names => w.files.get? names
  | .error _ => none

def pathExists (w : World) (p : Path) : Bool :=
  (w.node? p).isSome

def isFile (w : World) (p : Path) : Bool :=
  (w.node? p).any Node.isFile

def isDirectory (w : World) (p : Path) : Bool :=
  (w.node? p).any (!·.isFile)

/-- The path of an entry without any detours. -/
def canonical (w : World) (p : Path) : Except IoError Path := do
  return ⟨"/" ++ "/".intercalate (← w.files.follow w.cwd p)⟩

/-- The bytes of a file. -/
def read (w : World) (p : Path) : Except IoError ByteArray := do
  match w.files.get? (← w.resolve p) with
  | some (.file content _) => .ok content
  | some .directory => .error .isADirectory
  | none => .error .notFound

/-- The text of a file, which has to be UTF-8. -/
def readText (w : World) (p : Path) : Except IoError (List Char) := do
  match Text.Utf8.decode? (← w.read p).data.toList with
  | some text => .ok text
  | none => .error .notUtf8

/-! ## Documents -/

/-- The document in a file of at most `limit` bytes.  Bytes that are not UTF-8 do no harm. -/
def load (w : World) (limit : Nat) (p : Path) : Except AnalysisError Document :=
  match w.read p with
  | .error cause => .error (.io cause)
  | .ok content =>
    if content.size > limit then
      .error (.fileTooLarge p.text (content.size / bytesPerMb) (limit / bytesPerMb))
    else
      .ok (Document.ofChars (Text.Utf8.decodeLossy content.data.toList))

/-! ## Starting programs -/

/-- The longest argument that a program can be given, in bytes. -/
def maxArgumentBytes : Nat := 131071

/-- The room for all arguments and variables of a program together, in bytes. -/
def maxArgumentsBytes : Nat := 2 * 1024 * 1024

/-- Whether a program can be given these arguments.  Each takes its text, a zero byte and a pointer,
and so does each variable. -/
def takesArguments (w : World) (args : List String) : Bool :=
  let given := args ++ w.env.map fun (name, value) => name ++ "=" ++ value
  args.all (·.utf8ByteSize ≤ maxArgumentBytes) &&
    given.foldl (fun n s => n + s.utf8ByteSize + 9) 0 ≤ maxArgumentsBytes

/-- Start the program at a path. -/
def start (w : World) (p : Path) (args : List String) : Except IoError Run := do
  let names ← w.resolve p
  match w.files.get? names with
  | some (.file _ true) =>
    if !w.takesArguments (p.text :: args) then throw .argumentTooLong
    else
      match w.programs.lookup names with
      | some program => .ok (program w.files args)
      | none => throw .notAProgram
  | some _ => throw .permissionDenied
  | none => throw .notFound

/-- The directories in which commands without a slash are looked up. -/
def searchPath (w : World) : List Path :=
  let value := (w.env.lookup "PATH").getD "/bin:/usr/bin"
  (value.toList.splitOn ':').map fun dir => ⟨if dir.isEmpty then "." else String.ofList dir⟩

/-- Start the first program of that name.  Where it is not found or may not be started, the search
goes on.  If it ends there, a program that may not be started is the failure to tell, and else the
one met last. -/
def startNamed (w : World) (name : Path) (args : List String) (failure : IoError) :
    List Path → Except IoError Run
  | [] => .error failure
  | dir :: rest =>
    match w.start (dir.join name) args with
    | .ok run => .ok run
    | .error cause =>
      if [IoError.permissionDenied, .notFound, .notADirectory].contains cause then
        startNamed w name args (if failure = .permissionDenied then failure else cause) rest
      else .error cause

/-- Start a command: a name with a slash is a path, any other is looked up. -/
def launch (w : World) (command : Path) (args : List String) : Except IoError Run :=
  if (command.text :: args).any (·.toList.contains '\x00') then .error .nulInArgument
  else if command.text.isEmpty then .error .notFound
  else if command.text.toList.contains '/' then w.start command args
  else if command.text.utf8ByteSize > FileTree.maxNameBytes then .error .nameTooLong
  else w.startNamed command args .notFound w.searchPath

/-- Whether a command without a slash is found and can be started. -/
def onSearchPath (w : World) (command : Path) : Bool :=
  w.searchPath.any fun dir =>
    match w.node? (dir.join command) with
    | some (.file _ executable) => executable
    | _ => false

end World

end RuleLens
