import RuleLens.Proofs.Definition
import RuleLens.Proofs.Text

/-!
# Definitions among references

Where a symbol is declared it is also used, so its definition is one of its references.  A string
identifier misses it only where the sigil of the declaration belongs to the use in front of it, and
a wildcard, which stands for longer names, always does.
-/

namespace RuleLens.Symbol

open Query

variable {doc : Document} {p d : Position} {symbol : Symbol} {sigil : Sigil} {name : Line}

/-! ## 1. Declarations of string identifiers -/

theorem name_ne_nil (hsymbol : classify? doc p = some symbol) : symbol.name ≠ [] := by
  rcases IsWordOf.exists_of_classify? hsymbol with ⟨before, behind, i, hword, -⟩
  exact hword.ne_nil

theorem isIdentChar_of_mem_name (hsymbol : classify? doc p = some symbol) :
    ∀ c ∈ symbol.name, isIdentChar c = true := by
  rcases IsWordOf.exists_of_classify? hsymbol with ⟨before, behind, i, hword, -⟩
  exact hword.ident

/-- The dollar sign and the space cut the name out of its declaration. -/
theorem isWordOf_declared {front tail : Line} (hne : name ≠ [])
    (hname : ∀ c ∈ name, isIdentChar c = true) :
    IsWordOf (front ++ ['$']) name (' ' :: '=' :: tail) := by
  refine ⟨hne, hname, ?_, ?_⟩
  · intro c hc
    rw [List.getLast?_concat] at hc
    cases hc
    decide
  · intro c hc
    cases hc
    decide

/-- What stands at a declaration is its sigil and, as a whole word, its name. -/
theorem use_of_declaration {text : Line} {n col : Nat} (hline : doc.line? n = some text)
    (hname : ∀ c ∈ name, isIdentChar c = true) (hat : declaration name <+: text.drop col) :
    doc.SigilBefore ⟨n, col + 1⟩ ∧ doc.wordFrom ⟨n, col + 1⟩ = name := by
  rcases hat with ⟨tail, htail⟩
  have hcons : text.drop col = '$' :: (name ++ ' ' :: '=' :: tail) := by
    rw [← htail]
    simp [declaration]
  constructor
  · refine ⟨'$', by simp, ?_⟩
    rw [Document.charBefore?_of_line? hline, ← List.head?_drop, hcons]
    rfl
  · rw [Document.wordFrom_of_line? hline, ← List.tail_drop, hcons, List.tail_cons]
    -- the space in front of the equals sign ends the word
    refine Text.takeWhile_append_of_head? hname fun c hc => ?_
    cases hc
    decide

theorem use_of_declaredIn {scope : RuleScope} (hname : ∀ c ∈ name, isIdentChar c = true)
    (h : declaredIn doc scope name = some d) : doc.SigilBefore d ∧ doc.wordFrom d = name := by
  rcases List.exists_of_findSome?_eq_some h with ⟨⟨text, n⟩, hx, hd⟩
  rcases Option.map_eq_some_iff.mp hd with ⟨col, hcol, rfl⟩
  exact use_of_declaration (RuleScope.mem_lines.mp hx).2 hname (Text.find?_eq_some_iff.mp hcol).2.1

/-- A definition of a string identifier comes out of the block of its line. -/
theorem exists_declaredIn (hsymbol : classify? doc p = some symbol)
    (hkind : symbol.kind = .variable sigil) {token : Token}
    (hd : (definition doc p).answer token = .ok (some d)) :
    ∃ scope, RuleScope.IsBlockOf doc p.line scope ∧ declaredIn doc scope symbol.name = some d := by
  rw [definition_eq_variableDefinition hsymbol hkind] at hd
  rcases RuleScope.exists_isBlockOf_or_noHeaderAbove doc p.line with ⟨scope, hscope⟩ | hnone
  · exact ⟨scope, hscope, Except.ok.inj ((settles_variableDefinition hscope).eq_of_answer hd)⟩
  · cases (settles_variableDefinition_none hnone symbol.name).eq_of_answer hd

/-! ## 2. Names of rules -/

theorem definition_eq_ruleDefinition (hsymbol : classify? doc p = some symbol)
    (hkind : symbol.kind = .ruleName) :
    definition doc p = ruleDefinition doc p.line symbol.name := by
  simp only [definition, hsymbol, hkind]

theorem references_eq_ruleReferences [Automaton.Engine] (hsymbol : classify? doc p = some symbol)
    (hkind : symbol.kind = .ruleName) : references doc p = ruleReferences doc symbol.name := by
  simp only [references, hsymbol, hkind]

/-- The occurrences of a name in a document. -/
def occurrencesIn (doc : Document) (name : Line) : List Position :=
  doc.numbered.flatMap fun x => (Text.occurrences name x.1).map (⟨x.2, ·⟩)

theorem settles_ruleReferences (doc : Document) (name : Line) :
    Settles (ruleReferences doc name) (.ok (occurrencesIn doc name)) :=
  settles_allOf _ _

theorem mem_occurrencesIn {text : Line} {n col : Nat} (hline : doc.line? n = some text)
    (hcol : col ∈ Text.occurrences name text) : ⟨n, col⟩ ∈ occurrencesIn doc name :=
  List.mem_flatMap.mpr
    ⟨(text, n), Document.mem_numbered.mpr hline, List.mem_map.mpr ⟨col, hcol, rfl⟩⟩

/-- A rule is declared at the first occurrence of its name on a line. -/
theorem find?_of_ruleDefinition {n : Nat} {token : Token}
    (hd : (ruleDefinition doc n name).answer token = .ok (some d)) :
    ∃ text, doc.line? d.line = some text ∧ Text.find? name text = some d.character := by
  have hfound := Except.ok.inj ((settles_firstOf _ _).eq_of_answer hd)
  rcases List.exists_of_findSome?_eq_some hfound with ⟨⟨text, m⟩, hx, hfirst⟩
  rw [Option.ite_none_right_eq_some, Option.map_eq_some_iff] at hfirst
  rcases hfirst with ⟨-, col, hcol, rfl⟩
  exact ⟨text, (Document.mem_take_numbered.mp hx).2, hcol⟩

/-! ## 3. Agreement -/

/-- The definition of a rule is one of its references.  That of a string identifier is one unless a
reference ends right in front of its sigil, and that of a wildcard is none.  For a name that is too
long there are no references to speak of. -/
theorem definition_mem_references_iff [Automaton.Engine] (hsymbol : classify? doc p = some symbol)
    (hd : (definition doc p).answer .never = .ok (some d)) :
    (symbol.kind = .ruleName →
      ∃ found, (references doc p).answer .never = .ok found ∧ d ∈ found) ∧
    (∀ sigil, symbol.kind = .variable sigil → symbol.isWildcard doc = false →
      (searchSize symbol.name.length ≤ Automaton.limit →
        ∃ found, (references doc p).answer .never = .ok found ∧
          (d ∈ found ↔ ∀ c, c + symbol.name.length + 1 = d.character → ⟨d.line, c⟩ ∉ found)) ∧
      (Automaton.limit < searchSize symbol.name.length →
        (references doc p).answer .never = .error .searchTooLarge)) ∧
    (∀ sigil, symbol.kind = .variable sigil → symbol.isWildcard doc = true →
      (wildcardSize symbol.name.length ≤ Automaton.limit →
        ∃ found, (references doc p).answer .never = .ok found ∧ d ∉ found) ∧
      (Automaton.limit < wildcardSize symbol.name.length →
        (references doc p).answer .never = .error .searchTooLarge)) := by
  have hname := isIdentChar_of_mem_name hsymbol
  refine ⟨?_, ?_, ?_⟩
  · intro hkind
    rw [definition_eq_ruleDefinition hsymbol hkind] at hd
    rcases find?_of_ruleDefinition hd with ⟨text, hline, hcol⟩
    rw [references_eq_ruleReferences hsymbol hkind]
    refine ⟨_, (settles_ruleReferences doc symbol.name).answer_never, mem_occurrencesIn hline ?_⟩
    -- the first occurrence on a line is never in the way of itself
    rw [← Text.head?_occurrences (name_ne_nil hsymbol)] at hcol
    exact List.mem_of_head? hcol
  · intro sigil hkind hplain
    rcases exists_declaredIn hsymbol hkind hd with ⟨scope, -, hdeclared⟩
    rcases use_of_declaredIn hname hdeclared with ⟨hsigil, hword⟩
    rw [references_eq_variableReferences hsymbol hkind hplain]
    refine ⟨fun hsize => ?_, fun hsize => (settles_variableReferences_error hsize).answer_never⟩
    refine ⟨_, (settles_variableReferences hsize).answer_never, ?_⟩
    -- a sigil and the whole name stand there, so only the use in front can hinder
    rw [mem_usesWithin_name_iff]
    constructor
    · intro h
      exact h.2.2
    · intro h
      exact ⟨hsigil, hword, h⟩
  · intro sigil hkind hwild
    rcases exists_declaredIn hsymbol hkind hd with ⟨scope, hscope, hdeclared⟩
    rw [references_eq_wildcardReferences hsymbol hkind hwild]
    refine ⟨fun hsize => ?_, fun hsize =>
      (settles_wildcardReferences_error hscope hsize).answer_never⟩
    refine ⟨_, (settles_wildcardReferences hscope hsize).answer_never, ?_⟩
    -- at the definition stands the name itself, which is not longer than itself
    intro hmem
    have hlonger := (mem_usesWithin_iff.mp hmem).2.2.1
    rw [(use_of_declaredIn hname hdeclared).2, startsLonger_eq_true_iff] at hlonger
    exact Nat.lt_irrefl _ hlonger.2

/-- Where the sigil of the declaration is the character behind the use in front of it. -/
theorem definition_mem_references_iff_row :
    let doc := Document.ofString "rule r \x7b\n$a$a = 1\n\x7d"
    (definition doc ⟨1, 1⟩).answer .never = .ok (some ⟨1, 3⟩) ∧
      ∃ found, (references doc ⟨1, 1⟩).answer .never = .ok found ∧
        (⟨1, 3⟩ ∈ found ↔ ∀ c, c + 1 + 1 = 3 → ⟨1, c⟩ ∉ found) := by
  intro doc
  have hd : (definition doc ⟨1, 1⟩).answer .never = .ok (some ⟨1, 3⟩) := rfl
  have h := @definition_mem_references_iff doc ⟨1, 1⟩ ⟨1, 3⟩
    ⟨['a'], .variable .dollar, ⟨⟨1, 1⟩, ⟨1, 2⟩⟩⟩ _ rfl hd
  exact ⟨hd, (h.2.1 .dollar rfl rfl).1 (by decide)⟩

/-- A document of one line, which opens a rule and declares a name in it. -/
def oneLiner (name : Line) : Document :=
  ⟨[['r', 'u', 'l', 'e', ' ', '$'] ++ name ++ [' ', '=']]⟩

theorem classify?_oneLiner (hne : name ≠ []) (hname : ∀ c ∈ name, isIdentChar c = true) :
    ∃ symbol, classify? (oneLiner name) ⟨0, 6⟩ = some symbol ∧ symbol.name = name ∧
      symbol.kind = .variable .dollar ∧ symbol.isWildcard (oneLiner name) = false := by
  have hline : (oneLiner name).line? 0 =
      some (['r', 'u', 'l', 'e', ' '] ++ ['$'] ++ name ++ [' ', '=']) := rfl
  have hword : IsWordOf (['r', 'u', 'l', 'e', ' '] ++ ['$']) name [' ', '='] :=
    isWordOf_declared hne hname
  refine ⟨_, hword.classify?_eq hline (Nat.zero_le _), rfl, rfl, ?_⟩
  unfold isWildcard
  rw [IsWordOf.char?_stop hline]
  decide

theorem exists_definition_oneLiner (hne : name ≠ []) (hname : ∀ c ∈ name, isIdentChar c = true) :
    ∃ d, (definition (oneLiner name) ⟨0, 6⟩).answer .never = .ok (some d) := by
  rcases classify?_oneLiner hne hname with ⟨symbol, hsymbol, rfl, hkind, -⟩
  have hheader : (oneLiner symbol.name).headerAt 0 = true := rfl
  rcases RuleScope.exists_isBlockOf_of_headerAt hheader (Nat.zero_le _) with ⟨scope, hscope⟩
  rw [definition_eq_variableDefinition hsymbol hkind,
    (settles_variableDefinition hscope).answer_never]
  cases hd : declaredIn (oneLiner symbol.name) scope symbol.name with
  | some d => exact ⟨d, rfl⟩
  | none =>
    -- the only line lies in its own block, and it holds the declaration
    have hfirst : scope.first ≤ min 0 _ := hscope.first_le
    have hmem : (['r', 'u', 'l', 'e', ' ', '$'] ++ symbol.name ++ [' ', '='], 0) ∈
        scope.lines (oneLiner symbol.name) :=
      RuleScope.mem_lines.mpr ⟨RuleScope.contains_eq_true_iff.mpr ⟨by omega, by omega⟩, rfl⟩
    have hnone := List.findSome?_eq_none_iff.mp hd _ hmem
    rw [Option.map_eq_none_iff, Text.find?_eq_none_iff] at hnone
    exact absurd ⟨['r', 'u', 'l', 'e', ' '], [], by simp [declaration]⟩ hnone

/-- The name of half a million letters has a definition which is not among its references, although
none of them ends in front of it: there is no list of them. -/
theorem definition_of_long_name :
    let doc := oneLiner (List.replicate 500000 'a')
    ∃ symbol d, classify? doc ⟨0, 6⟩ = some symbol ∧ symbol.kind = .variable .dollar ∧
      symbol.isWildcard doc = false ∧ (definition doc ⟨0, 6⟩).answer .never = .ok (some d) ∧
      ¬ ((∃ found, (references doc ⟨0, 6⟩).answer .never = .ok found ∧ d ∈ found) ↔
        ∀ c, c + symbol.name.length + 1 = d.character →
          ¬ ∃ found, (references doc ⟨0, 6⟩).answer .never = .ok found ∧ ⟨d.line, c⟩ ∈ found) := by
  intro doc
  have hne : List.replicate 500000 'a' ≠ [] := by
    rw [ne_eq, List.replicate_eq_nil_iff]
    decide
  have hname : ∀ c ∈ List.replicate 500000 'a', isIdentChar c = true := by
    intro c hc
    rw [(List.mem_replicate.mp hc).2]
    decide
  rcases classify?_oneLiner hne hname with ⟨symbol, hsymbol, hlong, hkind, hplain⟩
  rcases exists_definition_oneLiner hne hname with ⟨d, hd⟩
  have hsize : Automaton.limit < searchSize symbol.name.length := by
    rw [hlong, List.length_replicate, ← Nat.not_le, searchSize_le_limit_iff]
    decide
  have hanswer : ∀ found, (references doc ⟨0, 6⟩).answer .never ≠ .ok found := by
    intro found hfound
    rw [references_eq_variableReferences hsymbol hkind hplain,
      (settles_variableReferences_error hsize).answer_never] at hfound
    cases hfound
  refine ⟨symbol, d, hsymbol, hkind, hplain, hd, fun hiff => ?_⟩
  rcases hiff.mpr fun c _ h => hanswer _ h.choose_spec.1 with ⟨found, hfound, -⟩
  exact hanswer found hfound

end RuleLens.Symbol
