import RuleLens.Document

/-!
# Symbols

The word under the cursor, and what it is: a string identifier if a sigil stands in front of it, the
name of a rule otherwise.
-/

namespace RuleLens

/-- The character in front of a string identifier. -/
inductive Sigil where
  /-- The string itself. -/
  | dollar
  /-- The number of its matches. -/
  | hash
  /-- The offset of a match. -/
  | at
  /-- The length of a match. -/
  | bang
deriving Repr, DecidableEq

namespace Sigil

def ofChar? : Char → Option Sigil
  | '$' => some .dollar
  | '#' => some .hash
  | '@' => some .at
  | '!' => some .bang
  | _ => none

def toChar : Sigil → Char
  | .dollar => '$'
  | .hash => '#'
  | .at => '@'
  | .bang => '!'

theorem ofChar?_toChar (s : Sigil) : ofChar? s.toChar = some s := by
  cases s <;> rfl

end Sigil

inductive SymbolKind where
  | variable (sigil : Sigil)
  | ruleName
deriving Repr, DecidableEq

namespace SymbolKind

def sigil? : SymbolKind → Option Sigil
  | .variable sigil => some sigil
  | .ruleName => none

def name : SymbolKind → String
  | .variable _ => "variable"
  | .ruleName => "rule"

end SymbolKind

structure Symbol where
  /-- The identifier, without its sigil. -/
  name : Line
  kind : SymbolKind
  /-- Where the identifier stands, without its sigil. -/
  range : Range
deriving Repr, DecidableEq

namespace Symbol

/-- The symbol as it is written, with its sigil. -/
def surface (s : Symbol) : Line :=
  (s.kind.sigil?.map Sigil.toChar).toList ++ s.name

/-- The symbol whose word contains `p` or ends there. -/
def classify? (doc : Document) (p : Position) : Option Symbol := do
  let range ← doc.wordRange? p
  let name ← doc.textIn? range
  let kind := match (doc.charBefore? range.start).bind Sigil.ofChar? with
    | some sigil => SymbolKind.variable sigil
    | none => SymbolKind.ruleName
  if name.isEmpty then none else some ⟨name, kind, range⟩

/-- A star right behind a symbol makes it stand for all names that it starts. -/
def isWildcard (doc : Document) (s : Symbol) : Bool :=
  doc.char? s.range.stop == some '*'

end Symbol

end RuleLens
