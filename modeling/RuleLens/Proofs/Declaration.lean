import RuleLens.Proofs.Agreement
import RuleLens.Proofs.Occurrence

/-!
# First declarations

The definition of a string identifier is its first declaration in the block of its line.  It stands
at the name, which is a symbol of its own there: a variable behind a dollar sign.  The definition of
that symbol is the same one, even where another header has cut off the start of the block.
-/

namespace RuleLens

/-- The position one column further to the right. -/
def Position.next (p : Position) : Position :=
  ⟨p.line, p.character + 1⟩

namespace Symbol

variable {doc : Document} {p d o : Position} {symbol : Symbol} {sigil : Sigil} {name : Line}
  {scope : RuleScope}

/-! ## 1. The symbol that is declared -/

theorem symbol_of_declaration (hne : name ≠ []) (hname : ∀ c ∈ name, isIdentChar c = true)
    (h : doc.OccursAt (declaration name) o) :
    doc.charBefore? o.next = some '$' ∧
      classify? doc o.next = some ⟨name, .variable .dollar,
        ⟨o.next, ⟨o.line, o.next.character + name.length⟩⟩⟩ := by
  have hdeclaration : declaration name ≠ [] := List.cons_ne_nil _ _
  rcases Document.exists_cut_of_occursAt hdeclaration h with ⟨front, tail, hlength, hcut⟩
  have hline : doc.line? o.line = some (front ++ ['$'] ++ name ++ ' ' :: '=' :: tail) := by
    simpa [declaration] using hcut
  have hword : IsWordOf (front ++ ['$']) name (' ' :: '=' :: tail) := isWordOf_declared hne hname
  have hnext : o.next = ⟨o.line, (front ++ ['$']).length⟩ := by
    rw [List.length_append, hlength]
    rfl
  rw [hnext]
  constructor
  · rw [IsWordOf.charBefore?_eq hline, List.getLast?_concat]
  · have hsymbol := hword.classify?_eq hline (Nat.zero_le _)
    rw [List.getLast?_concat] at hsymbol
    exact hsymbol

/-! ## 2. The first declaration of a block -/

theorem declaredIn_eq_map (doc : Document) (scope : RuleScope) (name : Line) :
    declaredIn doc scope name =
      (Document.findOccurrence (declaration name) (scope.lines doc)).map Position.next := by
  unfold declaredIn Document.findOccurrence
  rw [List.map_findSome?]
  congr 1
  funext x
  rw [Function.comp_apply, Option.map_map]
  rfl

theorem pairwise_lines (doc : Document) (scope : RuleScope) :
    (scope.lines doc).Pairwise fun x y => x.2 < y.2 :=
  doc.pairwise_numbered.drop.take

theorem declaredIn_eq_some_iff :
    declaredIn doc scope name = some d ↔
      ∃ o, o.next = d ∧
        doc.FirstOccurrence (fun n => scope.contains n = true) (declaration name) o := by
  rw [declaredIn_eq_map, Option.map_eq_some_iff]
  refine exists_congr fun o => ?_
  have hiff := @Document.findOccurrence_eq_some_iff doc (fun n => scope.contains n = true)
    (declaration name) o (scope.lines doc) (fun _ => RuleScope.mem_lines) (pairwise_lines doc scope)
  rw [hiff, and_comm]

theorem declaredIn_eq_none_iff :
    declaredIn doc scope name = none ↔
      ∀ q, scope.contains q.line = true → ¬ doc.OccursAt (declaration name) q := by
  rw [declaredIn_eq_map, Option.map_eq_none_iff]
  exact @Document.findOccurrence_eq_none_iff doc (fun n => scope.contains n = true)
    (declaration name) (scope.lines doc) fun _ => RuleScope.mem_lines

/-- A block that begins further down has the same first declaration, if it still holds it. -/
theorem declaredIn_of_subset {inner : RuleScope} (h : declaredIn doc scope name = some d)
    (hsub : ∀ n, inner.contains n = true → scope.contains n = true)
    (hd : inner.contains d.line = true) : declaredIn doc inner name = some d := by
  rcases declaredIn_eq_some_iff.mp h with ⟨o, rfl, hfirst⟩
  exact declaredIn_eq_some_iff.mpr ⟨o, rfl, hfirst.mono hsub hd⟩

/-! ## 3. Definitions of string identifiers -/

theorem answer_definition_iff (hsymbol : classify? doc p = some symbol)
    (hkind : symbol.kind = .variable sigil) :
    (definition doc p).answer .never = .ok (some d) ↔
      ∃ scope, RuleScope.IsBlockOf doc p.line scope ∧
        declaredIn doc scope symbol.name = some d := by
  constructor
  · exact exists_declaredIn hsymbol hkind
  · intro h
    rcases h with ⟨scope, hscope, hd⟩
    rw [definition_eq_variableDefinition hsymbol hkind,
      (settles_variableDefinition hscope).answer_never, hd]

/-- The definition of a string identifier is the first declaration in the block of its line, if
there is one, and stands at a symbol of that name behind a dollar sign. -/
theorem definition_is_first_declaration (hsymbol : classify? doc p = some symbol)
    (hkind : symbol.kind = .variable sigil) :
    ((∃ d, (definition doc p).answer .never = .ok (some d)) ↔
      ∃ scope q, (RuleScope.locate doc p.line).answer .never = .ok scope ∧
        scope.contains q.line = true ∧ doc.OccursAt (declaration symbol.name) q) ∧
    ((¬ ∃ d, (definition doc p).answer .never = .ok (some d)) →
      (definition doc p).answer .never = .ok none) ∧
    ∀ d, (definition doc p).answer .never = .ok (some d) →
      ∃ scope o, (RuleScope.locate doc p.line).answer .never = .ok scope ∧
        scope.contains o.line = true ∧ doc.OccursAt (declaration symbol.name) o ∧
        (∀ q, scope.contains q.line = true → doc.OccursAt (declaration symbol.name) q →
          o.line ≤ q.line) ∧
        (∀ col, doc.OccursAt (declaration symbol.name) ⟨o.line, col⟩ → o.character ≤ col) ∧
        d = o.next ∧ doc.charBefore? d = some '$' ∧
        classify? doc d = some ⟨symbol.name, .variable .dollar,
          ⟨d, ⟨d.line, d.character + symbol.name.length⟩⟩⟩ := by
  refine ⟨⟨?_, ?_⟩, ?_, ?_⟩
  · intro h
    rcases h with ⟨d, hd⟩
    rcases (answer_definition_iff hsymbol hkind).mp hd with ⟨scope, hscope, hdeclared⟩
    rcases declaredIn_eq_some_iff.mp hdeclared with ⟨o, -, hfirst⟩
    exact ⟨scope, o, hscope.settles_locate.answer_never, hfirst.kept, hfirst.occurs⟩
  · intro h
    rcases h with ⟨scope, q, hscope, hq, hat⟩
    cases hdeclared : declaredIn doc scope symbol.name with
    | none => exact absurd hat (declaredIn_eq_none_iff.mp hdeclared q hq)
    | some d =>
      have hblock := RuleScope.isBlockOf_of_locate hscope
      exact ⟨d, (answer_definition_iff hsymbol hkind).mpr ⟨scope, hblock, hdeclared⟩⟩
  · intro hnone
    rw [definition_eq_variableDefinition hsymbol hkind] at hnone ⊢
    rcases exists_settles_variableDefinition doc p.line symbol.name with ⟨found, hfound⟩
    cases found with
    | none => exact hfound.answer_never
    | some d => exact absurd ⟨d, hfound.answer_never⟩ hnone
  · intro d hd
    rcases (answer_definition_iff hsymbol hkind).mp hd with ⟨scope, hscope, hdeclared⟩
    rcases declaredIn_eq_some_iff.mp hdeclared with ⟨o, rfl, hfirst⟩
    rcases symbol_of_declaration (name_ne_nil hsymbol) (isIdentChar_of_mem_name hsymbol)
      hfirst.occurs with ⟨hdollar, hthere⟩
    refine ⟨scope, o, hscope.settles_locate.answer_never, hfirst.kept, hfirst.occurs, ?_, ?_, rfl,
      hdollar, hthere⟩
    · intro q hq hat
      exact hfirst.line_le hq hat
    · intro col hat
      exact hfirst.character_le hat

/-- A declaration of a longer name is passed over. -/
theorem definition_behind_longer_name :
    let doc := Document.ofString "rule r \x7b\n  $ab = 1\n  $a = 1\n  $a\n\x7d"
    (definition doc ⟨3, 3⟩).answer .never = .ok (some ⟨2, 3⟩) ∧
      ∃ scope o, (RuleScope.locate doc 3).answer .never = .ok scope ∧
        scope.contains o.line = true ∧ doc.OccursAt (declaration ['a']) o ∧
        (⟨2, 3⟩ : Position) = o.next := by
  intro doc
  have hd : (definition doc ⟨3, 3⟩).answer .never = .ok (some ⟨2, 3⟩) := rfl
  rcases (@definition_is_first_declaration doc ⟨3, 3⟩
    ⟨['a'], .variable .dollar, ⟨⟨3, 3⟩, ⟨3, 4⟩⟩⟩ .dollar rfl rfl).2.2 _ hd with
    ⟨scope, o, hscope, hcontains, hat, -, -, heq, -, -⟩
  exact ⟨hd, scope, o, hscope, hcontains, hat, heq⟩

/-- Where a string identifier is declared, its definition is that very place. -/
theorem definition_stays_put (hsymbol : classify? doc p = some symbol)
    (hkind : symbol.kind = .variable sigil)
    (hd : (definition doc p).answer .never = .ok (some d)) :
    (definition doc d).answer .never = .ok (some d) := by
  rcases (answer_definition_iff hsymbol hkind).mp hd with ⟨scope, hscope, hdeclared⟩
  -- the block of the declaration is what is left of the block from some header on
  have hcontains := contains_of_declaredIn hdeclared
  rcases hscope.exists_inner hcontains with ⟨inner, hinner, hfirst, hlast⟩
  have hinside : inner.contains d.line = true := by
    have hle := hinner.first_le
    rw [RuleScope.contains_eq_true_iff] at hcontains ⊢
    omega
  have hsub : ∀ n, inner.contains n = true → scope.contains n = true := by
    intro n hn
    rw [RuleScope.contains_eq_true_iff] at hn ⊢
    omega
  have hdeclared' := declaredIn_of_subset hdeclared hsub hinside
  -- and what stands there has the same name
  rcases declaredIn_eq_some_iff.mp hdeclared with ⟨o, rfl, hoccurs⟩
  have hthere := (symbol_of_declaration (name_ne_nil hsymbol) (isIdentChar_of_mem_name hsymbol)
    hoccurs.occurs).2
  exact (answer_definition_iff hthere rfl).mpr ⟨inner, hinner, hdeclared'⟩

/-- Also where it lies in a block that begins further down. -/
theorem definition_stays_put_in_next_rule :
    let doc := Document.ofString "rule A \x7b condition: $a \x7d\nrule B \x7b\n  $a = 1\n\x7d"
    (definition doc ⟨0, 21⟩).answer .never = .ok (some ⟨2, 3⟩) ∧
      (RuleScope.locate doc 0).answer .never ≠ (RuleScope.locate doc 2).answer .never ∧
      (definition doc ⟨2, 3⟩).answer .never = .ok (some ⟨2, 3⟩) := by
  intro doc
  have hd : (definition doc ⟨0, 21⟩).answer .never = .ok (some ⟨2, 3⟩) := rfl
  have hscope : (RuleScope.locate doc 0).answer .never = .ok (RuleScope.ofEnds 0 3) := rfl
  have hscope' : (RuleScope.locate doc 2).answer .never = .ok (RuleScope.ofEnds 1 3) := rfl
  refine ⟨hd, ?_, @definition_stays_put doc ⟨0, 21⟩ ⟨2, 3⟩
    ⟨['a'], .variable .dollar, ⟨⟨0, 21⟩, ⟨0, 22⟩⟩⟩ .dollar rfl rfl hd⟩
  rw [hscope, hscope']
  simp [RuleScope.ofEnds]

end Symbol

end RuleLens
