import RuleLens.Proofs.Definition

/-!
# Edits outside a rule

The block of a line is decided by its own lines, and so is what string identifiers are declared as
there and what wildcards stand for.  Whatever is put above and below these lines, the answers move
with them and stay the same.
-/

namespace RuleLens

open Query

/-- The position `p` when line `old` has become line `new`. -/
def Position.moved (old new : Nat) (p : Position) : Position :=
  ⟨p.line + new - old, p.character⟩

namespace Document

variable {doc edited : Document} {first last new n : Nat}

/-- The document with other lines above line `first` and below line `last`. -/
def editAround (doc : Document) (first last : Nat) (above below : List Line) : Document :=
  ⟨above ++ (doc.lines.take (last + 1)).drop first ++ below⟩

/-- The lines `first` to `last` of a document stand in another one from line `new` on. -/
def SharesLines (doc edited : Document) (first last new : Nat) : Prop :=
  ∀ n, first ≤ n → n ≤ last → edited.line? (n + new - first) = doc.line? n

theorem sharesLines_editAround {text : Line} (hlast : doc.line? last = some text)
    (above below : List Line) :
    doc.SharesLines (doc.editAround first last above below) first last above.length := by
  intro n hfirst hn
  have hcount : last < doc.lines.length := (List.getElem?_eq_some_iff.mp hlast).1
  have hindex : n + above.length - first - above.length = n - first := by omega
  have hback : first + (n - first) = n := by omega
  unfold line? editAround
  rw [List.append_assoc, List.getElem?_append_right (by omega), hindex,
    List.getElem?_append_left (by rw [List.length_drop, List.length_take]; omega),
    List.getElem?_drop, hback, List.getElem?_take, if_pos (by omega)]

theorem SharesLines.holdsAt (h : doc.SharesLines edited first last new) (hfirst : first ≤ n)
    (hn : n ≤ last) (p : Line → Bool) : edited.holdsAt p (n + new - first) = doc.holdsAt p n := by
  unfold Document.holdsAt
  rw [h n hfirst hn]

end Document

namespace RuleScope

variable {doc edited : Document} {scope : RuleScope} {n new : Nat}

/-! ## 1. Blocks that move -/

/-- The block when its first line has become line `new`. -/
def moved (scope : RuleScope) (new : Nat) : RuleScope :=
  ⟨new, scope.last + new - scope.first, by have := scope.first_le_last; omega⟩

/-- A block that is closed by a brace moves with its lines and the line that it is the block of. -/
theorem IsBlockOf.moved {text : Line} (h : IsBlockOf doc n scope) (hline : doc.line? n = some text)
    (hclosed : doc.closingAt scope.last = true)
    (hshared : doc.SharesLines edited scope.first (max scope.last n) new) :
    IsBlockOf edited (n + new - scope.first) (scope.moved new) := by
  have hends := scope.first_le_last
  have hfirst : scope.first ≤ n := by
    have := h.first_le
    omega
  have hlast : n ≤ doc.lastLine := Document.le_lastLine_of_line? hline
  -- a line of the edited document is one of the document, as long as it is shared
  have hback : ∀ p k, new ≤ k → k ≤ max scope.last n + new - scope.first →
      edited.holdsAt p k = doc.holdsAt p (k + scope.first - new) := by
    intro p k hk hk'
    have hholds := hshared.holdsAt (n := k + scope.first - new) (by omega) (by omega) p
    have heq : k + scope.first - new + new - scope.first = k := by omega
    rwa [heq] at hholds
  have hline' : n + new - scope.first ≤ edited.lastLine :=
    Document.le_lastLine_of_line? ((hshared n hfirst (by omega)).trans hline)
  have hclosed' : edited.closingAt (scope.last + new - scope.first) = true := by
    rw [← hclosed]
    exact hshared.holdsAt hends (by omega) isClosing
  have hend : scope.last + new - scope.first ≤ edited.lastLine :=
    Document.le_lastLine_of_holdsAt hclosed'
  refine ⟨?_, ?_, ?_, hend, ?_, fun _ => hclosed'⟩
  · change new ≤ _
    omega
  · -- the header is the first shared line, which has become line `new`
    have hheader := hshared.holdsAt (n := scope.first) (Nat.le_refl _) (by omega) isHeader
    rw [Nat.add_sub_cancel_left] at hheader
    exact hheader.trans h.header
  · intro k hk hkn
    change new < k at hk
    -- no header comes between it and the line of the block
    exact (hback isHeader k (by omega) (by omega)).trans (h.nearest _ (by omega) (by omega))
  · intro k hk hkl
    change new ≤ k at hk
    change k < scope.last + new - scope.first at hkl
    -- and no brace closes it earlier
    exact (hback isClosing k (by omega) (by omega)).trans (h.unclosed _ (by omega) (by omega))

theorem getElem?_lines (scope : RuleScope) (doc : Document) (i : Nat) :
    (scope.lines doc)[i]? =
      if i < scope.size then (doc.line? (scope.first + i)).map (·, scope.first + i) else none := by
  unfold lines
  rw [List.getElem?_take, List.getElem?_drop, Document.getElem?_numbered]

/-- The numbered lines of a block that moves are the same with other numbers. -/
theorem lines_moved {last : Nat} (hlast : scope.last ≤ last)
    (hshared : doc.SharesLines edited scope.first last new) :
    (scope.moved new).lines edited =
      (scope.lines doc).map fun x => (x.1, x.2 + new - scope.first) := by
  have hends := scope.first_le_last
  have hsize : (scope.moved new).size = scope.size := by
    unfold size moved
    simp only
    omega
  apply List.ext_getElem?
  intro i
  rw [List.getElem?_map, getElem?_lines, getElem?_lines, hsize]
  by_cases hi : i < scope.size
  · have hle : scope.first + i ≤ last := by
      unfold size at hi
      omega
    have hnumber : scope.first + i + new - scope.first = new + i := by omega
    have hline := hshared (scope.first + i) (Nat.le_add_right _ _) hle
    rw [hnumber] at hline
    rw [if_pos hi, if_pos hi, Option.map_map]
    change (edited.line? (new + i)).map _ = _
    rw [hline]
    simp only [Function.comp_def, hnumber]
    rfl
  · rw [if_neg hi, if_neg hi, Option.map_none]

end RuleScope

namespace Symbol

variable {doc edited : Document} {p : Position} {symbol : Symbol} {sigil : Sigil}
  {scope : RuleScope} {last new : Nat}

/-! ## 2. What is found in a block -/

theorem declaredIn_moved (hlast : scope.last ≤ last)
    (hshared : doc.SharesLines edited scope.first last new) (name : Line) :
    declaredIn edited (scope.moved new) name =
      (declaredIn doc scope name).map (Position.moved scope.first new) := by
  unfold declaredIn
  rw [RuleScope.lines_moved hlast hshared, List.findSome?_map, List.map_findSome?]
  congr 1
  funext x
  simp only [Function.comp_def, Option.map_map]
  rfl

theorem flatMap_lineUses_eq_nil {keep : Nat → Bool} {accept : Line → Bool}
    {lines : List (Line × Nat)} (h : ∀ x ∈ lines, ¬ keep x.2 = true) :
    lines.flatMap (fun x => lineUses keep accept x.1 x.2) = [] := by
  rw [List.flatMap_eq_nil_iff]
  intro x hx
  unfold lineUses
  rw [if_neg (h x hx)]

/-- Only the lines of the block are searched for the uses in it. -/
theorem usesWithin_eq_flatMap_lines (scope : RuleScope) (accept : Line → Bool) (doc : Document) :
    usesWithin scope.contains accept doc =
      (scope.lines doc).flatMap fun x => (uses accept x.1).map (⟨x.2, ·⟩) := by
  have hends := scope.first_le_last
  have hsplit : doc.numbered = doc.numbered.take scope.first ++
      (scope.lines doc ++ (doc.numbered.drop scope.first).drop scope.size) := by
    unfold RuleScope.lines
    rw [List.take_append_drop, List.take_append_drop]
  have habove : ∀ x ∈ doc.numbered.take scope.first, ¬ scope.contains x.2 = true := by
    intro x hx
    have hlt := (Document.mem_take_numbered.mp hx).1
    rw [RuleScope.contains_eq_true_iff]
    omega
  have hbelow : ∀ x ∈ (doc.numbered.drop scope.first).drop scope.size,
      ¬ scope.contains x.2 = true := by
    intro x hx
    rw [List.drop_drop] at hx
    have hle := (Document.mem_drop_numbered.mp hx).1
    unfold RuleScope.size at hle
    rw [RuleScope.contains_eq_true_iff]
    omega
  unfold usesWithin
  rw [hsplit, List.flatMap_append, List.flatMap_append, flatMap_lineUses_eq_nil habove,
    flatMap_lineUses_eq_nil hbelow, List.nil_append, List.append_nil, List.flatMap_def,
    List.flatMap_def]
  refine congrArg List.flatten (List.map_congr_left fun x hx => ?_)
  unfold lineUses
  rw [if_pos (RuleScope.mem_lines.mp hx).1]

theorem usesWithin_moved (hlast : scope.last ≤ last)
    (hshared : doc.SharesLines edited scope.first last new) (accept : Line → Bool) :
    usesWithin (scope.moved new).contains accept edited =
      (usesWithin scope.contains accept doc).map (Position.moved scope.first new) := by
  rw [usesWithin_eq_flatMap_lines, usesWithin_eq_flatMap_lines,
    RuleScope.lines_moved hlast hshared, List.flatMap_map, List.map_flatMap]
  congr 1
  funext x
  rw [List.map_map]
  rfl

/-! ## 3. The symbol at a position that moves -/

/-- A word that moves with its line is the same symbol at another place, and a star stands behind it
if one did before. -/
theorem classify?_moved {first : Nat} (hsymbol : classify? doc p = some symbol)
    (hline : edited.line? (p.line + new - first) = doc.line? p.line) :
    ∃ there, classify? edited (p.moved first new) = some there ∧ there.name = symbol.name ∧
      there.kind = symbol.kind ∧ there.isWildcard edited = symbol.isWildcard doc := by
  rcases IsWordOf.exists_of_classify? hsymbol with
    ⟨before, behind, i, hword, htext, hcol, hi, hkind, hrange⟩
  have htext' := hline.trans htext
  have hthere := hword.classify?_eq htext' hi
  rw [← hcol] at hthere
  refine ⟨_, hthere, rfl, hkind.symm, ?_⟩
  unfold isWildcard
  rw [hrange, IsWordOf.char?_stop htext, IsWordOf.char?_stop htext']

/-! ## 4. Lookups after an edit -/

/-- Edits above and below the rule of a string identifier move the answers about it and change
nothing else, as long as the rule is closed by a brace.  This holds of what it is declared as and of
what a wildcard stands for. -/
theorem variable_lookup_editAround [Automaton.Engine] (hsymbol : classify? doc p = some symbol)
    (hkind : symbol.kind = .variable sigil)
    (hscope : (RuleScope.locate doc p.line).answer .never = .ok scope)
    (hclosed : doc.closingAt scope.last = true) (above below : List Line) :
    let edited := doc.editAround scope.first (max scope.last p.line) above below
    let move := Position.moved scope.first above.length
    Settles (definition edited (move p))
        (((definition doc p).answer .never).map (Option.map move)) ∧
      (symbol.isWildcard doc = true →
        Settles (references edited (move p))
          (((references doc p).answer .never).map (List.map move))) := by
  intro edited move
  have hblock := RuleScope.isBlockOf_of_locate hscope
  obtain ⟨text, hline⟩ : ∃ text, doc.line? p.line = some text := by
    rcases IsWordOf.exists_of_classify? hsymbol with ⟨before, behind, i, -, htext, -⟩
    exact ⟨_, htext⟩
  -- the last line that is kept is that of the brace or that of the position
  obtain ⟨brace, hbrace⟩ : ∃ text, doc.line? (max scope.last p.line) = some text := by
    rcases Document.holdsAt_eq_true_iff.mp hclosed with ⟨brace, hbrace, -⟩
    rcases Nat.le_total scope.last p.line with hle | hle
    · exact ⟨text, by rwa [Nat.max_eq_right hle]⟩
    · exact ⟨brace, by rwa [Nat.max_eq_left hle]⟩
  have hshared : doc.SharesLines edited scope.first (max scope.last p.line) above.length :=
    Document.sharesLines_editAround hbrace above below
  have hblock' : RuleScope.IsBlockOf edited (move p).line (scope.moved above.length) :=
    hblock.moved hline hclosed hshared
  have hfirst := hblock.first_le
  rcases classify?_moved hsymbol (hshared p.line (by omega) (by omega)) with
    ⟨there, hthere, hname, hkind', hwild⟩
  have hkind' := hkind'.trans hkind
  constructor
  · rw [definition_eq_variableDefinition hsymbol hkind,
      definition_eq_variableDefinition hthere hkind', hname,
      (settles_variableDefinition hblock).answer_never]
    have hsettles : Settles (variableDefinition edited (move p).line symbol.name) _ :=
      settles_variableDefinition hblock'
    rw [declaredIn_moved (Nat.le_max_left _ _) hshared] at hsettles
    exact hsettles
  · intro hstar
    rw [references_eq_wildcardReferences hsymbol hkind hstar,
      references_eq_wildcardReferences hthere hkind' (hwild.trans hstar), hname]
    -- the name is as long as before, so it is too long in both documents or in none
    by_cases hsize : wildcardSize symbol.name.length ≤ Automaton.limit
    · rw [(settles_wildcardReferences hblock hsize).answer_never]
      have hsettles := settles_wildcardReferences hblock' hsize
      rw [usesWithin_moved (Nat.le_max_left _ _) hshared] at hsettles
      exact hsettles
    · rw [(settles_wildcardReferences_error hblock (Nat.not_le.mp hsize)).answer_never]
      exact settles_wildcardReferences_error hblock' (Nat.not_le.mp hsize)

/-- With another rule of the same names put above and a use of one put below. -/
theorem variable_lookup_editAround_rules :
    let doc := Document.ofString "rule r \x7b\n $ab = 1\n $a*\n\x7d"
    let edited := Document.ofString
      "rule q \x7b\n $ab = 2\n $a = 3\n\x7d\nrule r \x7b\n $ab = 1\n $a*\n\x7d\n$a = 4 $ac"
    (RuleScope.locate doc 2).answer .never = .ok (RuleScope.ofEnds 0 3) ∧
      doc.closingAt 3 = true ∧
      Settles (definition edited ⟨6, 2⟩) (.ok none) ∧
      Settles (references edited ⟨6, 2⟩)
        (((references doc ⟨2, 2⟩).answer .never).map (List.map (Position.moved 0 4))) := by
  intro doc edited
  have hscope : (RuleScope.locate doc 2).answer .never = .ok (RuleScope.ofEnds 0 3) := rfl
  have h := @variable_lookup_editAround doc ⟨2, 2⟩
    ⟨['a'], .variable .dollar, ⟨⟨2, 2⟩, ⟨2, 3⟩⟩⟩ .dollar (RuleScope.ofEnds 0 3) _ rfl rfl hscope
    (by decide) (edited.lines.take 4) (edited.lines.drop 8)
  exact ⟨hscope, by decide, h.1, h.2 rfl⟩

end Symbol

end RuleLens
