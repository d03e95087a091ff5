import RuleLens.IoError
import RuleLens.Path
import RuleLens.Text.Utf8
import Std.Data.TreeMap

/-!
# File trees

A file tree maps the names on the way from the root directory to a file or a directory.  Its entries
are ordered by these names, so a directory stands right before what it holds, and the entries of a
directory stand in the order of their names.
-/

namespace RuleLens

inductive Node where
  | file (content : ByteArray) (executable : Bool)
  | directory
deriving Inhabited

def Node.isFile : Node → Bool
  | .file .. => true
  | .directory => false

/-- The names on the way from the root directory. -/
abbrev Names := List String

structure FileTree where
  nodes : Std.TreeMap Names Node

namespace FileTree

def empty : FileTree := ⟨∅⟩

def get? (t : FileTree) (names : Names) : Option Node :=
  if names.isEmpty then some .directory else t.nodes[names]?

def isDirectory (t : FileTree) (names : Names) : Bool :=
  match t.get? names with
  | some .directory => true
  | _ => false

def insert (t : FileTree) (names : Names) (node : Node) : FileTree :=
  ⟨t.nodes.insert names node⟩

def erase (t : FileTree) (names : Names) : FileTree :=
  ⟨t.nodes.erase names⟩

/-- The entries below a directory, named from there, in order. -/
def below (t : FileTree) (dir : Names) : List (Names × Node) :=
  t.nodes.toList.filterMap fun (names, node) =>
    if dir.isPrefixOf names && dir.length < names.length then some (names.drop dir.length, node)
    else none

/-! ## Following paths -/

/-- The longest name, in bytes. -/
def maxNameBytes : Nat := 255

/-- The longest path that the system takes, in bytes. -/
def maxPathBytes : Nat := 4095

/-- Follow the pieces of a path from the entry `here`.  Every piece but the first has to follow a
directory. -/
def walk (t : FileTree) (here : Names) : List (List Char) → Except IoError Names
  | [] => .ok here
  | piece :: rest =>
    if !t.isDirectory here then .error .notADirectory
    else
      match Path.component? piece with
      | some (.name name) =>
        if name.utf8ByteSize > maxNameBytes then .error .nameTooLong
        else if (t.get? (here ++ [name])).isNone then .error .notFound
        else walk t (here ++ [name]) rest
      | some .parent => walk t here.dropLast rest
      | _ => walk t here rest

/-- The names at which a path starts, seen from the directory `cwd`. -/
def base (cwd : Names) (p : Path) : Names :=
  if p.isAbsolute then [] else cwd

/-- Whether a text can be the path of anything. -/
def checkText (p : Path) : Except IoError Unit :=
  if p.text.isEmpty then .error .notFound
  else if p.text.toList.contains '\x00' then .error .nulInName
  else .ok ()

/-- Whether the system takes a path. -/
def checkPath (p : Path) : Except IoError Unit := do
  checkText p
  if p.text.utf8ByteSize > maxPathBytes then throw .nameTooLong

/-- The entry that a path of any length leads to, followed step by step. -/
def follow (t : FileTree) (cwd : Names) (p : Path) : Except IoError Names := do
  checkText p
  t.walk (base cwd p) p.pieces

/-- The entry that a path leads to, seen from the directory `cwd`. -/
def resolve (t : FileTree) (cwd : Names) (p : Path) : Except IoError Names := do
  checkPath p
  t.walk (base cwd p) p.pieces

/-- Whether a path leads to a directory. -/
def leadsToDirectory (t : FileTree) (cwd : Names) (p : Path) : Bool :=
  match t.resolve cwd p with
  | .ok names => t.isDirectory names
  | .error _ => false

/-! ## Changes -/

/-- The directory that a path leads into, and its last piece.  Slashes at the end do not count. -/
def enclosing (t : FileTree) (cwd : Names) (p : Path) : Except IoError (Names × List Char) := do
  checkPath p
  let pieces := (p.pieces.reverse.dropWhile List.isEmpty).reverse
  let dir ← t.walk (base cwd p) pieces.dropLast
  if t.isDirectory dir then return (dir, pieces.getLastD []) else throw .notADirectory

/-- Make a directory. -/
def makeDirectory (t : FileTree) (cwd : Names) (p : Path) : Except IoError FileTree := do
  let (dir, last) ← t.enclosing cwd p
  match Path.component? last with
  | some (.name name) =>
    if name.utf8ByteSize > maxNameBytes then throw .nameTooLong
    else if (t.get? (dir ++ [name])).isSome then throw .alreadyExists
    else return t.insert (dir ++ [name]) .directory
  | _ => throw .alreadyExists

/-- What becomes of making a directory that may be there already. -/
def settle (t : FileTree) (cwd : Names) (p : Path) (cause : IoError) :
    FileTree × Except IoError Unit :=
  (t, if t.leadsToDirectory cwd p then .ok () else .error cause)

/-- Make the first of some paths a directory, each of which lies in the next one.  Directories that
are missing are made first, and stay when a later one fails. -/
def makeDirectories (t : FileTree) (cwd : Names) : List Path → FileTree × Except IoError Unit
  | [] => (t, .error .notFound)
  | p :: above =>
    if p.text.isEmpty then (t, .ok ())
    else
      match t.makeDirectory cwd p with
      | .ok t => (t, .ok ())
      | .error cause =>
        if cause = .notFound then
          match makeDirectories t cwd above with
          | (t, .error cause) => (t, .error cause)
          | (t, .ok ()) =>
            match t.makeDirectory cwd p with
            | .ok t => (t, .ok ())
            | .error cause => settle t cwd p cause
        else settle t cwd p cause

/-- Write a file.  One that is there already keeps its permissions. -/
def writeFile (t : FileTree) (cwd : Names) (p : Path) (content : ByteArray) :
    Except IoError FileTree := do
  let (dir, last) ← t.enclosing cwd p
  match Path.component? last with
  | some (.name name) =>
    if name.utf8ByteSize > maxNameBytes then throw .nameTooLong
    else
      match t.get? (dir ++ [name]) with
      | some .directory => throw .isADirectory
      | some (.file _ executable) => return t.insert (dir ++ [name]) (.file content executable)
      | none => return t.insert (dir ++ [name]) (.file content false)
  | _ => throw .isADirectory

end FileTree

end RuleLens
