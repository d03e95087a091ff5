import RuleLens.Symbol.Definition

/-!
# References

A string identifier is used wherever a sigil stands in front of its whole name.  A use covers its
sigil, its name and the character behind the name, so a sigil right behind a use belongs to that use
and starts none of its own.  A wildcard stands for all longer names of its rule.  A rule is used
wherever its name occurs.

String identifiers are searched for with an automaton, so a name of hundreds of thousands of
characters can be too long for that.
-/

namespace RuleLens.Symbol

/-- The columns of the names that are used in a text, looking from behind the next `skip`
characters on, where the first character has column `col`. -/
def usesFrom (accept : Line → Bool) : (skip col : Nat) → Line → List Nat
  | _, _, [] => []
  | skip + 1, col, _ :: rest => usesFrom accept skip (col + 1) rest
  | 0, col, c :: rest =>
    let name := rest.takeWhile isIdentChar
    if (Sigil.ofChar? c).isSome && accept name then
      (col + 1) :: usesFrom accept (name.length + 1) (col + 1) rest
    else
      usesFrom accept 0 (col + 1) rest

/-- The columns at which an accepted name is used on a line. -/
def uses (accept : Line → Bool) (text : Line) : List Nat :=
  usesFrom accept 0 0 text

/-- The size of the automaton for a sigil, a name of the given length and the end of the name.  The
name ends with the line or in front of a character that no identifier has: the ranges of such
characters are written in 13 forms, of 31 bytes together. -/
def searchSize [Automaton.Engine] (length : Nat) : Nat :=
  let start := Automaton.loopSize (Automaton.setSize 1)
  let sigil := Automaton.setSize 3
  let stop := Automaton.forkSize 2 + Automaton.stateSize +
    (Automaton.forkSize 13 + 31 * Automaton.stateSize)
  start + sigil + length * Automaton.stateSize + stop + Automaton.stateSize

/-- The size of the automaton for all longer names: it has a loop more, over the four ranges of the
characters of identifiers. -/
def wildcardSize [Automaton.Engine] (length : Nat) : Nat :=
  searchSize length + Automaton.loopSize (Automaton.setSize 4)

/-- The uses of one name in a whole document. -/
def variableReferences [Automaton.Engine] (doc : Document) (name : Line) :
    Query (List Position) := do
  Query.reserve (searchSize name.length)
  Query.allOf (fun text n => (uses (· == name) text).map (⟨n, ·⟩)) doc.numbered

/-- Whether `name` starts the longer name `word`. -/
def startsLonger (name word : Line) : Bool :=
  name.isPrefixOf word && name.length < word.length

/-- The uses of the names that `name` starts, in the rule around line `n`. -/
def wildcardReferences [Automaton.Engine] (doc : Document) (n : Nat) (name : Line) :
    Query (List Position) := do
  match ← RuleScope.locate? doc n with
  | none => pure []
  | some scope => do
    Query.reserve (wildcardSize name.length)
    Query.allOf
      (fun text n =>
        if scope.contains n then (uses (startsLonger name) text).map (⟨n, ·⟩) else [])
      doc.numbered

/-- The occurrences of the name of a rule. -/
def ruleReferences (doc : Document) (name : Line) : Query (List Position) :=
  Query.allOf (fun text n => (Text.occurrences name text).map (⟨n, ·⟩)) doc.numbered

/-- Where the symbol at `p` is used, in the order of the document. -/
def references [Automaton.Engine] (doc : Document) (p : Position) : Query (List Position) :=
  match classify? doc p with
  | none => throw (.noSymbolAt p)
  | some symbol =>
    match symbol.kind with
    | .variable _ =>
      if symbol.isWildcard doc then wildcardReferences doc p.line symbol.name
      else variableReferences doc symbol.name
    | .ruleName => ruleReferences doc symbol.name

end RuleLens.Symbol
