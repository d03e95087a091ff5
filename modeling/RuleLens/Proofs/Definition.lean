import RuleLens.Proofs.References

/-!
# Where string identifiers are looked up

The declaration of a string identifier and the names that a wildcard stands for are looked up in the
block of their line.  What is found there belongs to the same rule, unless the block runs on into
another rule because no brace has closed it before.
-/

namespace RuleLens.Symbol

open Query

variable {doc : Document} {p : Position} {symbol : Symbol} {sigil : Sigil}

/-! ## 1. Results of the search for a declaration -/

theorem definition_eq_variableDefinition (hsymbol : classify? doc p = some symbol)
    (hkind : symbol.kind = .variable sigil) :
    definition doc p = variableDefinition doc p.line symbol.name := by
  simp only [definition, hsymbol, hkind]

/-- The first declaration of a name on the lines of a block. -/
def declaredIn (doc : Document) (scope : RuleScope) (name : Line) : Option Position :=
  (scope.lines doc).findSome? fun x =>
    (Text.find? (declaration name) x.1).map fun col => ⟨x.2, col + 1⟩

theorem settles_variableDefinition {n : Nat} {scope : RuleScope} {name : Line}
    (hscope : RuleScope.IsBlockOf doc n scope) :
    Settles (variableDefinition doc n name) (.ok (declaredIn doc scope name)) :=
  hscope.settles_locate?.bind (settles_firstOf _ _)

theorem settles_variableDefinition_none {n : Nat} (hnone : RuleScope.NoHeaderAbove doc n)
    (name : Line) : Settles (variableDefinition doc n name) (.ok none) :=
  hnone.settles_locate?.bind (settles_pure none)

theorem exists_settles_variableDefinition (doc : Document) (n : Nat) (name : Line) :
    ∃ found, Settles (variableDefinition doc n name) (.ok found) := by
  rcases RuleScope.exists_isBlockOf_or_noHeaderAbove doc n with ⟨scope, hscope⟩ | hnone
  · exact ⟨_, settles_variableDefinition hscope⟩
  · exact ⟨none, settles_variableDefinition_none hnone name⟩

theorem contains_of_declaredIn {scope : RuleScope} {name : Line} {d : Position}
    (h : declaredIn doc scope name = some d) : scope.contains d.line = true := by
  rcases List.exists_of_findSome?_eq_some h with ⟨x, hx, hd⟩
  rcases Option.map_eq_some_iff.mp hd with ⟨col, -, rfl⟩
  exact (RuleScope.mem_lines.mp hx).1

/-! ## 2. The rule that it belongs to -/

/-- What a string identifier is declared as, and what a wildcard stands for, lies in the block of
the line, and has the same block unless another header stands in front of it there. -/
theorem variable_lookup_blockWithin [Automaton.Engine] (hsymbol : classify? doc p = some symbol)
    (hkind : symbol.kind = .variable sigil) {scope : RuleScope}
    (hscope : (RuleScope.locate doc p.line).answer .never = .ok scope) :
    (∀ token d, (definition doc p).answer token = .ok (some d) →
      RuleScope.BlockWithin doc scope d.line) ∧
    (symbol.isWildcard doc = true →
      ∀ token found, (references doc p).answer token = .ok found →
        ∀ q ∈ found, RuleScope.BlockWithin doc scope q.line) := by
  have hblock := RuleScope.isBlockOf_of_locate hscope
  constructor
  · intro token d hd
    rw [definition_eq_variableDefinition hsymbol hkind] at hd
    have hdeclared := (settles_variableDefinition hblock).eq_of_answer hd
    exact hblock.blockWithin (contains_of_declaredIn (Except.ok.inj hdeclared))
  · intro hwild token found hfound q hq
    rw [references_eq_wildcardReferences hsymbol hkind hwild] at hfound
    -- a name that is too long has no answer to speak of
    by_cases hsize : wildcardSize symbol.name.length ≤ Automaton.limit
    · have huses := (settles_wildcardReferences hblock hsize).eq_of_answer hfound
      rw [← Except.ok.inj huses] at hq
      exact hblock.blockWithin (mem_usesWithin_iff.mp hq).1
    · cases (settles_wildcardReferences_error hblock (Nat.not_le.mp hsize)).eq_of_answer hfound

/-- In a rule that is closed by a brace of its own. -/
theorem variable_lookup_blockWithin_closed_rule :
    let doc := Document.ofString "rule A \x7b\n  $a = 1\n  $a\n\x7d\nrule B \x7b\n\x7d"
    (RuleScope.locate doc 2).answer .never = .ok (RuleScope.ofEnds 0 3) ∧
      (definition doc ⟨2, 3⟩).answer .never = .ok (some ⟨1, 3⟩) ∧
      RuleScope.BlockWithin doc (RuleScope.ofEnds 0 3) 1 := by
  intro doc
  have hscope : (RuleScope.locate doc 2).answer .never = .ok (RuleScope.ofEnds 0 3) := rfl
  have hdefinition : (definition doc ⟨2, 3⟩).answer .never = .ok (some ⟨1, 3⟩) := rfl
  exact ⟨hscope, hdefinition, (@variable_lookup_blockWithin doc ⟨2, 3⟩
    ⟨['a'], .variable .dollar, ⟨⟨2, 3⟩, ⟨2, 4⟩⟩⟩ .dollar _ rfl rfl _ hscope).1 _ _ hdefinition⟩

/-- A rule on one line is not closed there, so its block runs on to the brace of the next rule, and
a declaration is found in the block of that rule. -/
theorem definition_in_next_rule :
    let doc := Document.ofString
      "rule A \x7b condition: $a \x7d\nrule B \x7b\n  $a = 1\n\x7d"
    (∃ symbol, classify? doc ⟨0, 21⟩ = some symbol ∧ symbol.kind = .variable .dollar) ∧
      (RuleScope.locate doc 0).answer .never = .ok (RuleScope.ofEnds 0 3) ∧
      (definition doc ⟨0, 21⟩).answer .never = .ok (some ⟨2, 3⟩) ∧
      (RuleScope.locate doc 2).answer .never = .ok (RuleScope.ofEnds 1 3) ∧
      RuleScope.ofEnds 0 3 ≠ RuleScope.ofEnds 1 3 :=
  ⟨⟨_, rfl, rfl⟩, rfl, rfl, rfl, by decide⟩

end RuleLens.Symbol
