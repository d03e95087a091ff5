import RuleLens.Ignore.Rules

/-!
# Discovery of rule files

A walk goes through the directories below a root, depth first and in the order of names.  It passes
over hidden entries and over those that ignore files exclude, with all that lies below them.  Of the
files it meets, those are found that are rule files and not ignored by the project.
-/

namespace RuleLens

/-- Which entries a discovery passes over. -/
structure Filter where
  /-- Heed the ignore files of version control. -/
  versionControl : Bool := true
  /-- Names that are ignored wherever they stand; a star in front makes one an ending. -/
  ignoredNames : List String := []
  includeHidden : Bool := false
deriving Repr, DecidableEq

namespace Filter

/-- The filter for a workspace. -/
def ofWorkspace (c : WorkspaceConfig) : Filter :=
  { ignoredNames := c.ignoredPaths }

def matchesName (pattern name : String) : Bool :=
  match pattern.toList with
  | '*' :: ending => ending.isSuffixOf name.toList
  | _ => pattern == name

def isHidden (name : String) : Bool :=
  name.toList.head? = some '.'

/-- Whether a name is ignored wherever it stands. -/
def excludesName (f : Filter) (name : String) : Bool :=
  f.ignoredNames.any (matchesName · name) || (!f.includeHidden && isHidden name)

end Filter

namespace Discovery

/-- The path of an entry below a root. -/
def pathOf (root : Path) (names : Names) : Path :=
  if names.isEmpty then root else root.join ⟨"/".intercalate names⟩

/-- Whether a walk passes over an entry, whatever stands above it. -/
def skips (rules : IgnoreRules) (includeHidden : Bool) (names : Names) (p : Path)
    (isDirectory : Bool) : Bool :=
  match rules.verdict names p isDirectory with
  | .ignored => true
  | .restored => false
  | .undecided => !includeHidden && names.getLast?.any Filter.isHidden

/-- The entries below the directory `names` that a walk passes over by themselves, named from there.
The directory is reached by the path `root`. -/
def passedOver [Automaton.Engine] (w : World) (f : Filter) (root : Path) (names : Names) :
    List Names :=
  let rules := IgnoreRules.ofWorld w f.versionControl
  (w.files.below names).filterMap fun (rel, node) =>
    if skips rules f.includeHidden (names ++ rel) (pathOf root rel) (!node.isFile) then some rel
    else none

/-- The entries below the directory `names` that a walk meets: neither they nor any entry on the way
to them is passed over. -/
def walked [Automaton.Engine] (w : World) (f : Filter) (root : Path) (names : Names) :
    List (Names × Node) :=
  let out := passedOver w f root names
  (w.files.below names).filter fun (rel, _) => !out.any (·.isPrefixOf rel)

/-- All that a walk from `root` meets, as the names that lead there: the root itself, under no
names, and what lies below it. -/
def met [Automaton.Engine] (w : World) (f : Filter) (root : Path) : List Names :=
  match w.resolve root with
  | .error _ => []
  | .ok names => [] :: (walked w f root names).map (·.1)

/-- The patterns of the project at `root`. -/
def projectPatterns [Automaton.Engine] (w : World) (root : Path) : IgnorePatterns :=
  IgnoreFiles.load w ((root.join ⟨".yaralens"⟩).join ⟨"ignore"⟩)

/-- What the patterns of the project at `root` say about an entry, whose path from there is
`relative`.  Only the entry itself is looked up in the patterns, not the directories above it. -/
def projectVerdict (patterns : IgnorePatterns) (root relative : Path) (isDirectory : Bool) :
    Verdict :=
  patterns.verdict
    (String.ofList (seenFrom root.text.toList relative.text.toList)).toUTF8.data.toList isDirectory

/-- Whether the project at `root`, which has these patterns, ignores a path. -/
def isIgnoredBy (patterns : IgnorePatterns) (w : World) (f : Filter) (root p : Path) : Bool :=
  let relative := (root.stripPrefix? p).getD p
  (relative.components.filterMap Component.name?).any f.excludesName ||
    projectVerdict patterns root relative (w.isDirectory p) = .ignored

/-- Whether the project at `root` ignores a path. -/
def isIgnored [Automaton.Engine] (w : World) (f : Filter) (root p : Path) : Bool :=
  isIgnoredBy (projectPatterns w root) w f root p

/-- Whether an entry that a walk meets is found: a rule file, under a path that the system takes,
which the project does not ignore. -/
def isFound (patterns : IgnorePatterns) (w : World) (f : Filter) (root : Path) (names : Names) :
    Bool :=
  let p := pathOf root names
  w.isFile p && p.isRuleFile && !isIgnoredBy patterns w f root p

/-- The rule files below a root, as the names that lead to them: at most `limit`, in the order of
the walk.  A root that is a rule file itself is found under no names. -/
def find [Automaton.Engine] (w : World) (f : Filter) (root : Path) (limit : Nat) : List Names :=
  ((met w f root).filter (isFound (projectPatterns w root) w f root)).take limit

end Discovery

end RuleLens
