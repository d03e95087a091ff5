import RuleLens.Text.Decimal

/-!
# Positions and ranges

Lines and columns count from 0, columns in characters.  Users see both counted from 1.  A position
has 32 bits for each number, so conversions stop at the largest one instead of passing it.  What is
said about positions is meant for documents with fewer than 2 ^ 32 lines and columns.
-/

namespace RuleLens

/-- The number shown for the index `n`. -/
def displayNumber (n : Nat) : Nat :=
  min (n + 1) Text.max32

structure Position where
  line : Nat
  character : Nat
deriving Repr, DecidableEq

namespace Position

/-- The column that stands for the end of its line. -/
def endOfLine : Nat := Text.max32

/-- The position that a user calls `line` and `column`. -/
def ofDisplay (line column : Nat) : Position :=
  ⟨line - 1, column - 1⟩

/-- The line and column to show a user. -/
def toDisplay (p : Position) : Nat × Nat :=
  (displayNumber p.line, displayNumber p.character)

/-- Positions are ordered by line, then by column. -/
instance : LT Position where
  lt p q := p.line < q.line ∨ (p.line = q.line ∧ p.character < q.character)

instance (p q : Position) : Decidable (p < q) :=
  inferInstanceAs (Decidable (p.line < q.line ∨ (p.line = q.line ∧ p.character < q.character)))

end Position

structure Range where
  start : Position
  stop : Position
deriving Repr, DecidableEq

namespace Range

/-- The range between two positions, given in any order. -/
def between (p q : Position) : Range :=
  if q < p then ⟨q, p⟩ else ⟨p, q⟩

def point (p : Position) : Range :=
  ⟨p, p⟩

/-- From a column of a line to its end. -/
def restOfLine (line column : Nat) : Range :=
  ⟨⟨line, column⟩, ⟨line, Position.endOfLine⟩⟩

def isSingleLine (r : Range) : Bool :=
  r.start.line == r.stop.line

end Range

end RuleLens
