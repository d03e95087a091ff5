import RuleLens.Ignore.Glob.Basic
import RuleLens.Text.Expression

/-!
# Limits of glob patterns

Patterns that are more than a plain text are matched by an automaton, all those of a file by one,
except that a pattern which ends in an extension has one of its own.  A pattern may not nest too
deep, and an automaton may not become too large, whichever way it reads.
-/

namespace RuleLens.Glob

/-! ## Nesting -/

/-- What counts about a part of a pattern. -/
structure Extent where
  /-- How many parts of a sequence it makes: none if it asks for nothing. -/
  width : Nat
  /-- How deep it is nested: sets, repetitions, sequences, choices and groups each take one level
  around what they hold. -/
  depth : Nat
deriving Repr, DecidableEq

namespace Extent

/-- One part behind the other. -/
def append (a b : Extent) : Extent :=
  ⟨a.width + b.width, max a.depth b.depth⟩

/-- How deep a whole sequence is nested. -/
def sequenceDepth (e : Extent) : Nat :=
  if e.width > 1 then e.depth + 1 else e.depth

/-- A group of branches that each ask for something. -/
def group (branches : List Extent) : Extent :=
  let depth := branches.foldl (fun n e => max n e.sequenceDepth) 0
  match branches.length with
  | 0 => ⟨0, 0⟩
  | 1 => ⟨1, depth + 1⟩
  | _ => ⟨1, depth + 2⟩

end Extent

mutual

/-- What counts about a token. -/
def extent : GlobToken → Extent
  | .literal c => ⟨(bytesOf c).length, 0⟩
  | .any => ⟨1, 1⟩
  | .star => ⟨1, 2⟩
  | .leading => ⟨1, 4⟩
  | .inner => ⟨1, 4⟩
  | .trailing => ⟨2, 1⟩
  | .oneOf _ ranges => ⟨1, if (ranges.flatMap byteRanges).length > 1 then 2 else 1⟩
  | .alternatives branches => .group ((branchExtents branches).filter (·.width > 0))

/-- What counts about a sequence of tokens. -/
def sequenceExtent : List GlobToken → Extent
  | [] => ⟨0, 0⟩
  | token :: tokens => (extent token).append (sequenceExtent tokens)

def branchExtents : List (List GlobToken) → List Extent
  | [] => []
  | branch :: branches => sequenceExtent branch :: branchExtents branches

end

/-- The deepest nesting of a pattern that can be used. -/
def nestingLimit : Nat := 250

/-- Whether a pattern does not nest too deep.  A whole pattern is a sequence, which is one level. -/
def isShallow (tokens : List GlobToken) : Bool :=
  1 + (sequenceExtent tokens).depth ≤ nestingLimit

/-! ## Automata -/

def slashWord : Expression := .word [slash]

/-- One byte other than a slash. -/
def inName : Expression := .byte (· != slash)

/-- Any bytes at all. -/
def anyBytes : Expression := .many (.byte fun _ => true)

mutual

/-- What an automaton is to find for a token, as parts of a sequence. -/
def expressions : GlobToken → List Expression
  | .literal c => [.word (bytesOf c)]
  | .any => [inName]
  | .star => [.many inName]
  | .leading => [.choice [.optional slashWord, .sequence [anyBytes, slashWord]]]
  | .inner => [.choice [slashWord, .sequence [slashWord, anyBytes, slashWord]]]
  | .trailing => [slashWord, anyBytes]
  | .oneOf negated ranges =>
    let set := ranges.flatMap byteRanges
    [.byte fun b => inRanges set b != negated]
  | .alternatives branches =>
    let ways := (branchExpressions branches).filter fun parts => !parts.isEmpty
    Expression.choiceParts (ways.map Expression.ofParts)

def sequenceExpressions : List GlobToken → List Expression
  | [] => []
  | token :: tokens => Expression.prependAll (expressions token) (sequenceExpressions tokens)

def branchExpressions : List (List GlobToken) → List (List Expression)
  | [] => []
  | branch :: branches => sequenceExpressions branch :: branchExpressions branches

end

/-- The size of a whole pattern: there are states for both ends of a path and for what was found. -/
def patternSize [Automaton.Engine] (backwards : Bool) (parts : List Expression) : Nat :=
  3 * Automaton.stateSize + Expression.sizeAll backwards parts

/-- The size of an automaton for several patterns. -/
def automatonSize [Automaton.Engine] (backwards : Bool) (patterns : List (List Expression)) : Nat :=
  Automaton.stateSize + (if patterns.length > 1 then Automaton.forkSize patterns.length else 0) +
    patterns.foldl (fun n parts => n + patternSize backwards parts) 0

/-- Whether there is room for the automata of several patterns, one for each way to read. -/
def haveRoom [Automaton.Engine] (patterns : List (List GlobToken)) : Bool :=
  let patterns := patterns.map sequenceExpressions
  [false, true].all fun backwards => automatonSize backwards patterns ≤ Automaton.patternLimit

/-! ## Patterns of a file -/

/-- Whether a token is a character of a file name without a dot. -/
def isNamePart (token : GlobToken) : Bool :=
  isLiteral token && !isSlash token && !isDot token

/-- Whether a pattern is a plain text or asks for an extension alone, and so needs no automaton. -/
def isSimple : List GlobToken → Bool
  | .leading :: .star :: .literal '.' :: tokens => tokens.all isNamePart
  | .leading :: token :: tokens => (token :: tokens).all isLiteral
  | tokens => !tokens.isEmpty && tokens.all isLiteral

/-- Whether a pattern ends in a dot and then nothing but a name. -/
def hasExtension (tokens : List GlobToken) : Bool :=
  (tokens.reverse.dropWhile isNamePart).head?.any isDot

/-- Whether the patterns of a file can be used together. -/
def areUsable [Automaton.Engine] (patterns : List (List GlobToken)) : Bool :=
  let matched := patterns.filter (!isSimple ·)
  let (alone, together) := matched.partition hasExtension
  matched.all isShallow && alone.all (haveRoom [·]) && haveRoom together

end RuleLens.Glob
