import RuleLens.Text.Decimal

/-!
# Paths

A path is a text whose pieces slashes separate.  What it denotes depends on its components alone:
repeated slashes, a slash at the end and inner `.` pieces do not count, while `..` is a component
like any other.  Cutting a path down to what follows a prefix works on components, and gives a piece
of the text.
-/

namespace RuleLens

/-- One step of a path. -/
inductive Component where
  | root
  /-- A dot at the very start of a path. -/
  | current
  | parent
  | name (text : String)
deriving Repr, DecidableEq

namespace Component

/-- How components of different kinds are ordered. -/
def rank : Component → Nat
  | .root => 0
  | .current => 1
  | .parent => 2
  | .name _ => 3

/-- Components are ordered by kind, names by their characters. -/
instance : Ord Component where
  compare
    | .name a, .name b => compare a b
    | a, b => compare a.rank b.rank

def name? : Component → Option String
  | .name text => some text
  | _ => none

end Component

structure Path where
  text : String
deriving Repr, DecidableEq, Inhabited

namespace Path

/-- What slashes separate in a path. -/
def pieces (p : Path) : List (List Char) :=
  p.text.toList.splitOn '/'

/-- The text of a list of pieces. -/
def joinPieces (pieces : List (List Char)) : List Char :=
  ['/'].intercalate pieces

/-- The component that a piece behind the start of a path stands for. -/
def component? (piece : List Char) : Option Component :=
  if piece = [] ∨ piece = ['.'] then none
  else if piece = ['.', '.'] then some .parent
  else some (.name (String.ofList piece))

/-- The component at the start of a path that is no name, and the pieces behind it. -/
def anchor : List (List Char) → Option Component × List (List Char)
  | [] :: piece :: rest => (some .root, piece :: rest)
  | ['.'] :: rest => (some .current, rest)
  | pieces => (none, pieces)

def components (p : Path) : List Component :=
  (anchor p.pieces).1.toList ++ (anchor p.pieces).2.filterMap component?

def isAbsolute (p : Path) : Bool :=
  p.text.toList.head? = some '/'

/-- The path `q` as seen from `p`. -/
def join (p q : Path) : Path :=
  if q.isAbsolute || p.text.isEmpty then q
  else if p.text.toList.getLast? = some '/' then ⟨p.text ++ q.text⟩
  else ⟨p.text ++ "/" ++ q.text⟩

/-- The pieces behind the component `c`, which comes first. -/
def dropComponent? (c : Component) : List (List Char) → Option (List (List Char))
  | [] => none
  | piece :: rest =>
    match component? piece with
    | none => dropComponent? c rest
    | some d => if c = d then some rest else none

/-- Pieces up to the last one that counts. -/
def trimPieces (pieces : List (List Char)) : List (List Char) :=
  (pieces.reverse.dropWhile (component? · |>.isNone)).reverse

/-- The path of pieces behind a start, up to the last one that counts. -/
def ofPieces (start : Option Component) (pieces : List (List Char)) : Path :=
  let body := trimPieces pieces
  match start with
  | some .root => ⟨String.ofList ('/' :: joinPieces body)⟩
  | some _ => ⟨String.ofList (joinPieces (['.'] :: body))⟩
  | none => ⟨String.ofList (joinPieces body)⟩

/-- The path without its last component, unless that is the root or there is none. -/
def parent? (p : Path) : Option Path :=
  let (start, body) := anchor p.pieces
  match start, trimPieces body with
  | some .root, [] | none, [] => none
  | some _, [] => some ⟨""⟩
  | start, body => some (ofPieces start body.dropLast)

/-- A path and at most `n` paths above it, the longest first. -/
def ancestorsUpTo : Nat → Path → List Path
  | 0, p => [p]
  | n + 1, p =>
    match p.parent? with
    | some q => p :: ancestorsUpTo n q
    | none => [p]

/-- A path and all paths above it, the longest first. -/
def ancestors (p : Path) : List Path :=
  ancestorsUpTo p.components.length p

/-- What follows the components of `base` in `p`. -/
def stripPrefix? (base p : Path) : Option Path := do
  let (baseAnchor, baseBody) := anchor base.pieces
  let (pathAnchor, pathBody) := anchor p.pieces
  let steps := baseBody.filterMap component?
  match baseAnchor, steps with
  | none, [] => some (ofPieces pathAnchor pathBody)
  | _, _ =>
    if baseAnchor = pathAnchor then
      let rest ← steps.foldlM (fun body c => dropComponent? c body) pathBody
      some ⟨String.ofList (joinPieces (trimPieces (rest.dropWhile (component? · |>.isNone))))⟩
    else
      none

/-- A path below `root` as seen from there, any other path as it is. -/
def relativeTo (p root : Path) : String :=
  ((stripPrefix? root p).getD p).text

def fileName? (p : Path) : Option String :=
  p.components.getLast?.bind Component.name?

/-- What follows the last dot of a file name, unless that is its first character. -/
def extension? (p : Path) : Option String := do
  let name ← p.fileName?
  match name.toList.splitOn '.' with
  | [] | [_] | [[], _] => none
  | pieces => pieces.getLast?.map String.ofList

/-- Rule files are known by their extension. -/
def isRuleFile (p : Path) : Bool :=
  p.extension? = some "yara" || p.extension? = some "yar"

/-- Paths are ordered by their components. -/
instance : Ord Path where
  compare p q := compare p.components q.components

end Path

end RuleLens
