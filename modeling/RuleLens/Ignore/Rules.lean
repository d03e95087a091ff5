import RuleLens.Ignore.Patterns
import RuleLens.Ignore.Settings

/-!
# Ignore rules

The patterns that count for the entries of a file tree.  A directory may hold ignore files of
several kinds, which count for all that lies below it; of one kind the deepest file that decides
wins, and of two kinds the first.  The patterns of the user come last.
-/

namespace RuleLens

/-- The text of a path as an ignore file sees it. -/
def pathBytes (names : Names) : List UInt8 :=
  ("/".intercalate names).toUTF8.data.toList

/-- The ignore files of one kind, each with the names of its directory, deepest first. -/
abbrev IgnoreFiles := List (Names × IgnorePatterns)

namespace IgnoreFiles

/-- The patterns in a file: none if it cannot be read. -/
def load [Automaton.Engine] (w : World) (p : Path) : IgnorePatterns :=
  match w.read p with
  | .ok content => .ofBytes content.data.toList
  | .error _ => []

def deepestFirst (files : IgnoreFiles) : IgnoreFiles :=
  files.mergeSort fun a b => b.1.length ≤ a.1.length

/-- The directories that hold an entry of a name, with that entry. -/
def holders (t : FileTree) (name : String) : List (Names × Node) :=
  t.nodes.toList.filterMap fun (names, node) =>
    if names.getLast? = some name then some (names.dropLast, node) else none

/-- The ignore files of a name. -/
def named [Automaton.Engine] (t : FileTree) (name : String) : IgnoreFiles :=
  deepestFirst <| (holders t name).filterMap fun (dir, node) =>
    match node with
    | .file content _ => some (dir, .ofBytes content.data.toList)
    | .directory => none

/-- The directory of a repository that a file in place of it leads to, by way of the name of a work
tree there. -/
def commonDirectory? (w : World) (content : ByteArray) : Option Path := do
  let line ← IgnorePatterns.firstLine? content.data.toList
  let workTree ← "gitdir: ".toList.isPrefixOf? line
  let workTree : Path := ⟨String.ofList workTree⟩
  match w.read (workTree.join ⟨"commondir"⟩) with
  | .ok content =>
    let common ← IgnorePatterns.firstLine? content.data.toList
    let path : Path := ⟨String.ofList common⟩
    return if common.head? = some '.' then workTree.join path else path
  | .error _ => none

/-- The ignore files of repositories. -/
def ofRepositories [Automaton.Engine] (w : World) : IgnoreFiles :=
  deepestFirst <| (holders w.files ".git").filterMap fun (dir, node) => do
    let repository ← match node with
      | .file content _ => commonDirectory? w content
      | .directory => some ⟨"/" ++ "/".intercalate (dir ++ [".git"])⟩
    return (dir, load w (repository.join ⟨"info/exclude"⟩))

/-- What the files above an entry say about it, the deepest one first. -/
def verdict (files : IgnoreFiles) (names : Names) (isDirectory : Bool) : Verdict :=
  (files.filter fun file => file.1.isPrefixOf names && file.1.length < names.length).foldl
    (fun v file =>
      v.orElse (file.2.verdict (pathBytes (names.drop file.1.length)) isDirectory))
    .undecided

end IgnoreFiles

/-- A path as patterns see it that count from `base`. -/
def seenFrom (base p : List Char) : List Char :=
  let p := if ['.', '/'].isPrefixOf p then p.drop 2 else p
  let base := if ['.', '/'].isPrefixOf base then base.drop 2 else base
  if base != ['.'] && p.contains '/' && base.isPrefixOf p then
    let rest := p.drop base.length
    if rest.head? = some '/' then rest.tail else rest
  else
    p

structure IgnoreRules where
  /-- The ignore files by kind, the ones that win first. -/
  files : List IgnoreFiles
  /-- The patterns of the user, which see paths as they are written. -/
  user : IgnorePatterns
  /-- The current directory, from which the patterns of the user count. -/
  base : Path

namespace IgnoreRules

/-- The rules in force; without `versionControl` only those that do not belong to it. -/
def ofWorld [Automaton.Engine] (w : World) (versionControl : Bool) : IgnoreRules where
  files := .named w.files ".ignore" ::
    if versionControl then [.named w.files ".gitignore", .ofRepositories w] else []
  user := if versionControl then IgnoreFiles.load w (IgnoreSettings.userFile w) else []
  base := w.cwdPath

/-- What the rules say about an entry, which is reached by a path. -/
def verdict (rules : IgnoreRules) (names : Names) (p : Path) (isDirectory : Bool) : Verdict :=
  let byFiles : Verdict :=
    rules.files.foldl (fun v files => v.orElse (files.verdict names isDirectory)) .undecided
  let seen := String.ofList (seenFrom rules.base.text.toList p.text.toList)
  byFiles.orElse (rules.user.verdict seen.toUTF8.data.toList isDirectory)

end IgnoreRules

end RuleLens
