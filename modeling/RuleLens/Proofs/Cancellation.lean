import RuleLens.Proofs.Agreement

/-!
# Cancelled queries

A query about a symbol answers all or nothing: where there is a symbol, a token can keep its value
back but not change it, and where there is none, no token is looked at.  Only references to a name
that is too long have an error in place of their value.
-/

namespace RuleLens.Symbol

open Query

variable {α : Type} {doc : Document} {p : Position} {symbol : Symbol}

/-! ## 1. All or nothing -/

/-- Without a symbol the query fails at once, telling where there is none, and with one it comes to
a value which every token either lets through or stops. -/
structure AllOrNothing (doc : Document) (p : Position) (q : Query α) : Prop where
  noSymbol_iff (token : Token) :
    q.answer token =
        .error (.noSymbol (min (p.line + 1) Text.max32) (min (p.character + 1) Text.max32)) ↔
      classify? doc p = none
  answered : classify? doc p ≠ none → ∃ value, q.answer .never = .ok value ∧
    ∀ token, q.answer token = .ok value ∨ q.answer token = .error .cancelled

theorem allOrNothing_of_settles {q : Query α}
    (hnone : classify? doc p = none → q = throw (.noSymbolAt p))
    (hsome : ∀ symbol, classify? doc p = some symbol → ∃ value, Settles q (.ok value)) :
    AllOrNothing doc p q := by
  have hanswered : classify? doc p ≠ none → ∃ value, q.answer .never = .ok value ∧
      ∀ token, q.answer token = .ok value ∨ q.answer token = .error .cancelled := by
    intro hsymbol
    obtain ⟨symbol, hsymbol⟩ := Option.ne_none_iff_exists'.mp hsymbol
    obtain ⟨value, hvalue⟩ := hsome symbol hsymbol
    exact ⟨value, hvalue.answer_never, fun token => (hvalue.answer token).symm⟩
  refine ⟨fun token => ⟨fun hanswer => ?_, fun hsymbol => ?_⟩, hanswered⟩
  · apply Decidable.of_not_not
    intro hsymbol
    -- with a symbol there is a value or a cancellation
    obtain ⟨value, -, hall⟩ := hanswered hsymbol
    obtain hok | hcancelled := hall token
    · rw [hok] at hanswer
      cases hanswer
    · rw [hcancelled] at hanswer
      cases hanswer
  · rw [hnone hsymbol]
    rfl

/-! ## 2. What the queries come to -/

theorem allOrNothing_definition (doc : Document) (p : Position) :
    AllOrNothing doc p (definition doc p) := by
  apply allOrNothing_of_settles
  · intro hnone
    simp only [definition, hnone]
  · intro symbol hsymbol
    rcases hkind : symbol.kind with sigil | -
    · rw [definition_eq_variableDefinition hsymbol hkind]
      exact exists_settles_variableDefinition doc p.line symbol.name
    · rw [definition_eq_ruleDefinition hsymbol hkind]
      exact ⟨_, settles_firstOf _ _⟩

theorem allOrNothing_inspect (doc : Document) (p : Position) :
    AllOrNothing doc p (inspect doc p) := by
  apply allOrNothing_of_settles
  · intro hnone
    simp only [inspect, hnone]
  · intro symbol hsymbol
    simp only [inspect, hsymbol]
    -- a line without a block is inspected all the same
    obtain ⟨scope, -, hscope⟩ | ⟨-, hnone⟩ := RuleScope.settles_locate?_cases doc p.line
    · exact ⟨(symbol, some scope), hscope.bind (settles_pure _)⟩
    · exact ⟨(symbol, none), hnone.bind (settles_pure _)⟩

/-! ## 3. Names that are too long -/

/-- There is no room for the automaton that the references to the symbol are searched with.  Names
of rules need none, and neither does a wildcard outside all rules. -/
def TooLong [Automaton.Engine] (doc : Document) (p : Position) (symbol : Symbol) : Prop :=
  (∃ sigil, symbol.kind = .variable sigil) ∧
    if symbol.isWildcard doc then
      (∃ scope, (RuleScope.locate doc p.line).answer .never = .ok scope) ∧
        Automaton.limit < wildcardSize symbol.name.length
    else
      Automaton.limit < searchSize symbol.name.length

theorem settles_references_of_tooLong [Automaton.Engine] (hsymbol : classify? doc p = some symbol)
    (hlong : TooLong doc p symbol) : Settles (references doc p) (.error .searchTooLarge) := by
  obtain ⟨⟨sigil, hkind⟩, hsize⟩ := hlong
  cases hwild : symbol.isWildcard doc with
  | true =>
    rw [hwild, if_pos rfl] at hsize
    obtain ⟨⟨scope, hscope⟩, hsize⟩ := hsize
    rw [references_eq_wildcardReferences hsymbol hkind hwild]
    exact settles_wildcardReferences_error (RuleScope.isBlockOf_of_locate hscope) hsize
  | false =>
    rw [hwild, if_neg Bool.false_ne_true] at hsize
    rw [references_eq_variableReferences hsymbol hkind hwild]
    exact settles_variableReferences_error hsize

theorem exists_settles_references [Automaton.Engine] (hsymbol : classify? doc p = some symbol)
    (hfits : ¬ TooLong doc p symbol) : ∃ found, Settles (references doc p) (.ok found) := by
  match hkind : symbol.kind with
  | .ruleName =>
    rw [references_eq_ruleReferences hsymbol hkind]
    exact ⟨_, settles_ruleReferences doc symbol.name⟩
  | .variable sigil =>
    cases hwild : symbol.isWildcard doc with
    | true =>
      rw [references_eq_wildcardReferences hsymbol hkind hwild]
      obtain ⟨scope, hscope⟩ | hnone := RuleScope.exists_isBlockOf_or_noHeaderAbove doc p.line
      · refine ⟨_, settles_wildcardReferences hscope (Nat.le_of_not_lt fun hsize => hfits ?_)⟩
        refine ⟨⟨sigil, hkind⟩, ?_⟩
        rw [hwild, if_pos rfl]
        exact ⟨⟨scope, hscope.settles_locate.answer_never⟩, hsize⟩
      · exact ⟨[], settles_wildcardReferences_nil hnone⟩
    | false =>
      rw [references_eq_variableReferences hsymbol hkind hwild]
      refine ⟨_, settles_variableReferences (Nat.le_of_not_lt fun hsize => hfits ?_)⟩
      refine ⟨⟨sigil, hkind⟩, ?_⟩
      rw [hwild, if_neg Bool.false_ne_true]
      exact hsize

theorem allOrNothing_references [Automaton.Engine]
    (hfits : ∀ symbol, classify? doc p = some symbol → ¬ TooLong doc p symbol) :
    AllOrNothing doc p (references doc p) := by
  apply allOrNothing_of_settles
  · intro hnone
    simp only [references, hnone]
  · intro symbol hsymbol
    exact exists_settles_references hsymbol (hfits symbol hsymbol)

/-! ## 4. Every query under every token -/

/-- All three queries answer all or nothing, the references unless the name of the symbol is too
long.  Then they have an error in place of a value, and a token can keep back that one too. -/
theorem queries_allOrNothing [Automaton.Engine] (doc : Document) (p : Position) :
    AllOrNothing doc p (definition doc p) ∧ AllOrNothing doc p (inspect doc p) ∧
      ((∀ symbol, classify? doc p = some symbol → ¬ TooLong doc p symbol) →
        AllOrNothing doc p (references doc p)) ∧
      ∀ symbol, classify? doc p = some symbol → TooLong doc p symbol →
        (references doc p).answer .never = .error .searchTooLarge ∧
          ∀ token, (references doc p).answer token = .error .searchTooLarge ∨
            (references doc p).answer token = .error .cancelled := by
  refine ⟨allOrNothing_definition doc p, allOrNothing_inspect doc p, allOrNothing_references, ?_⟩
  intro symbol hsymbol hlong
  have hsettles := settles_references_of_tooLong hsymbol hlong
  exact ⟨hsettles.answer_never, fun token => (hsettles.answer token).symm⟩

/-- A name of half a million letters is a symbol, but its references come to no value under a token
that is never cancelled. -/
theorem not_allOrNothing_references_long :
    let doc : Document := ⟨['$' :: List.replicate 500000 'a']⟩
    classify? doc ⟨0, 1⟩ ≠ none ∧ (references doc ⟨0, 1⟩).answer .never = .error .searchTooLarge ∧
      ¬ AllOrNothing doc ⟨0, 1⟩ (references doc ⟨0, 1⟩) := by
  intro doc
  have hanswer : (references doc ⟨0, 1⟩).answer .never = .error .searchTooLarge :=
    references_longName_alone (by decide)
  have hsome : classify? doc ⟨0, 1⟩ ≠ none := by
    rw [(classify?_longName_alone (by decide)).1]
    exact Option.some_ne_none _
  refine ⟨hsome, hanswer, fun h => ?_⟩
  obtain ⟨value, hvalue, -⟩ := h.answered hsome
  rw [hanswer] at hvalue
  cases hvalue

end RuleLens.Symbol
