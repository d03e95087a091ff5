import RuleLens.Query

/-!
# Rule blocks

The block of a rule starts at a line that begins with the keyword and a space, and ends at the first
line from there on that is nothing but an unindented closing brace.
-/

namespace RuleLens

/-- The lines of a rule block, both ends included. -/
structure RuleScope where
  first : Nat
  last : Nat
  first_le_last : first ≤ last
deriving Repr, DecidableEq

namespace RuleScope

/-- The block between two lines.  It has at least its first line. -/
def ofEnds (first last : Nat) : RuleScope :=
  ⟨first, max last first, Nat.le_max_right last first⟩

def contains (scope : RuleScope) (line : Nat) : Bool :=
  scope.first ≤ line && line ≤ scope.last

/-- How many lines the block has. -/
def size (scope : RuleScope) : Nat :=
  scope.last - scope.first + 1

/-- The numbered lines of the block. -/
def lines (scope : RuleScope) (doc : Document) : List (Line × Nat) :=
  (doc.numbered.drop scope.first).take scope.size

def isHeader (line : Line) : Bool :=
  ['r', 'u', 'l', 'e', ' '].isPrefixOf line

def isClosing (line : Line) : Bool :=
  Text.trimEnd line == ['\x7d']

/-- The block around a line, if there is one: from the nearest header at or above the line to the
first closing brace from that header on, or to the end of a document that has none.  A line past the
end counts as the last one. -/
def locate? (doc : Document) (line : Nat) : Query (Option RuleScope) := do
  let above := (doc.numbered.take (min line doc.lastLine + 1)).reverse
  match ← Query.firstOf (fun text n => if isHeader text then some n else none) above with
  | none => pure none
  | some first =>
    let last ← Query.firstOf (fun text n => if isClosing text then some n else none)
      (doc.numbered.drop first)
    pure (some (ofEnds first (last.getD doc.lastLine)))

/-- The block around a line, which has to be there. -/
def locate (doc : Document) (line : Nat) : Query RuleScope := do
  match ← locate? doc line with
  | none => throw (.noEnclosingRule line)
  | some scope => pure scope

end RuleScope

end RuleLens
