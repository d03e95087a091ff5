import RuleLens.Symbol.Basic
import RuleLens.Symbol.Scope
import RuleLens.Text.Search

/-!
# Definitions

A string identifier is declared in its own rule, at `$name =`.  A rule is declared on a line above
that begins with the keyword and names it.
-/

namespace RuleLens.Symbol

/-- What declares the string identifier `name`. -/
def declaration (name : Line) : Line :=
  '$' :: name ++ [' ', '=']

/-- The declaration of a string identifier used on line `n`, as the position of its name. -/
def variableDefinition (doc : Document) (n : Nat) (name : Line) : Query (Option Position) := do
  match ← RuleScope.locate? doc n with
  | none => pure none
  | some scope =>
    Query.firstOf
      (fun text n => (Text.find? (declaration name) text).map fun col => ⟨n, col + 1⟩)
      (scope.lines doc)

/-- The declaration of a rule above line `n`. -/
def ruleDefinition (doc : Document) (n : Nat) (name : Line) : Query (Option Position) :=
  Query.firstOf
    (fun text n =>
      if ['r', 'u', 'l', 'e'].isPrefixOf text then
        (Text.find? name text).map fun col => ⟨n, col⟩
      else
        none)
    (doc.numbered.take n)

/-- Where the symbol at `p` is declared; none if its declaration is out of reach. -/
def definition (doc : Document) (p : Position) : Query (Option Position) :=
  match classify? doc p with
  | none => throw (.noSymbolAt p)
  | some symbol =>
    match symbol.kind with
    | .variable _ => variableDefinition doc p.line symbol.name
    | .ruleName => ruleDefinition doc p.line symbol.name

/-- The symbol at `p` and the rule block around it. -/
def inspect (doc : Document) (p : Position) : Query (Symbol × Option RuleScope) :=
  match classify? doc p with
  | none => throw (.noSymbolAt p)
  | some symbol => do
    let scope ← RuleScope.locate? doc p.line
    pure (symbol, scope)

end RuleLens.Symbol
