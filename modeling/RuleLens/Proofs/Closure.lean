import RuleLens.Proofs.Agreement
import RuleLens.Proofs.Word

/-!
# References of references

At every reference of a string identifier stands its name as a whole word behind a sigil, so there
is a symbol of its own: a variable of that name.  Asked from there, the same list is found again,
unless a star makes the symbol a wildcard.
-/

namespace RuleLens.Symbol

open Query

variable {doc : Document} {p q : Position} {symbol : Symbol} {sigil : Sigil} {name : Line}
  {found : List Position}

/-! ## 1. The symbol behind a sigil -/

/-- Behind a sigil a word starts, so the longest run of identifier characters is the whole word. -/
theorem isWordOf_wordFrom (hsigil : doc.SigilBefore q) (hne : doc.wordFrom q ≠ []) :
    ∃ before behind, IsWordOf before (doc.wordFrom q) behind ∧
      doc.line? q.line = some (before ++ doc.wordFrom q ++ behind) ∧
      before.length = q.character := by
  obtain ⟨text, hline, hle⟩ := exists_line?_of_sigilBefore hsigil
  have hword : doc.wordFrom q = (text.drop q.character).takeWhile isIdentChar :=
    Document.wordFrom_of_line? hline q.character
  have hlength : (text.take q.character).length = q.character := List.length_take_of_le hle
  have hcut : text =
      text.take q.character ++ doc.wordFrom q ++ (text.drop q.character).dropWhile isIdentChar := by
    rw [hword, List.append_assoc, List.takeWhile_append_dropWhile, List.take_append_drop]
  have hline' := hline
  rw [hcut] at hline'
  refine ⟨_, _, ⟨hne, ?_, ?_, ?_⟩, hline', hlength⟩
  · intro c hc
    rw [hword] at hc
    exact List.all_eq_true.mp List.all_takeWhile c hc
  · intro c hc
    -- the last character in front of the word is the sigil
    have hfront := IsWordOf.charBefore?_eq hline'
    rw [hlength, hc] at hfront
    obtain ⟨d, hd, hbefore⟩ := hsigil
    obtain rfl : d = c := Option.some.inj (hbefore.symm.trans hfront)
    exact Sigil.not_isIdentChar ((Sigil.isSome_ofChar?_iff d).mpr hd)
  · intro c hc
    have hnot := List.head?_dropWhile_not isIdentChar (text.drop q.character)
    rw [hc] at hnot
    exact hnot

/-- The symbol where a word stands behind a sigil is the variable of that name. -/
theorem exists_variable_of_sigilBefore (hsigil : doc.SigilBefore q) (hne : doc.wordFrom q ≠ []) :
    ∃ sigil : Sigil, doc.charBefore? q = some sigil.toChar ∧
      classify? doc q = some ⟨doc.wordFrom q, .variable sigil,
        ⟨q, ⟨q.line, q.character + (doc.wordFrom q).length⟩⟩⟩ := by
  obtain ⟨before, behind, hword, hline, hlength⟩ := isWordOf_wordFrom hsigil hne
  have hbefore := IsWordOf.charBefore?_eq hline
  have hsymbol := hword.classify?_eq hline (Nat.zero_le _)
  rw [Nat.add_zero, hlength, ← hbefore, hlength] at hsymbol
  obtain ⟨c, hc, hchar⟩ := hsigil
  obtain ⟨sigil, hkind⟩ := Option.isSome_iff_exists.mp ((Sigil.isSome_ofChar?_iff c).mpr hc)
  obtain rfl := Sigil.ofChar?_eq_some_iff.mp hkind
  rw [hchar, SymbolKind.behind_eq_variable_iff.mpr rfl] at hsymbol
  exact ⟨sigil, hchar, hsymbol⟩

/-! ## 2. Looking again -/

/-- A list of the uses of a name is the list of all of them, and the name is not too long. -/
theorem eq_of_answer_variableReferences [Automaton.Engine] {token : Token}
    (h : (variableReferences doc name).answer token = .ok found) :
    searchSize name.length ≤ Automaton.limit ∧
      found = usesWithin (fun _ => true) (· == name) doc := by
  by_cases hsize : searchSize name.length ≤ Automaton.limit
  · exact ⟨hsize, (Except.ok.inj ((settles_variableReferences hsize).eq_of_answer h)).symm⟩
  · cases (settles_variableReferences_error (Nat.not_le.mp hsize)).eq_of_answer h

/-- At every reference of a plain name stands a variable of that name, and its references are the
same list unless a star stands behind it. -/
theorem references_of_reference [Automaton.Engine] (hsymbol : classify? doc p = some symbol)
    (hkind : symbol.kind = .variable sigil) (hplain : symbol.isWildcard doc = false) :
    ∀ token found, (references doc p).answer token = .ok found → ∀ q ∈ found,
      ∃ sigil', classify? doc q = some ⟨symbol.name, .variable sigil',
          ⟨q, ⟨q.line, q.character + symbol.name.length⟩⟩⟩ ∧
        (doc.char? ⟨q.line, q.character + symbol.name.length⟩ ≠ some '*' →
          (references doc q).answer .never = .ok found) := by
  have hne := name_ne_nil hsymbol
  rw [references_eq_variableReferences hsymbol hkind hplain]
  intro token found hfound q hq
  -- there is an answer, so the name was not too long for the search
  obtain ⟨hsize, rfl⟩ := eq_of_answer_variableReferences hfound
  obtain ⟨hsigil, hword, -⟩ := mem_usesWithin_name_iff.mp hq
  rw [← hword] at hne
  obtain ⟨sigil', -, hthere⟩ := exists_variable_of_sigilBefore hsigil hne
  rw [hword] at hthere
  refine ⟨sigil', hthere, fun hstar => ?_⟩
  -- without a star it is a plain name again, and the search goes by the name alone
  have hplain' : isWildcard doc ⟨symbol.name, .variable sigil',
      ⟨q, ⟨q.line, q.character + symbol.name.length⟩⟩⟩ = false := by
    unfold isWildcard
    exact beq_eq_false_iff_ne.mpr hstar
  rw [references_eq_variableReferences hthere rfl hplain']
  exact (settles_variableReferences hsize).answer_never

/-- From the number of matches of a string to its declaration, behind a character of two bytes. -/
theorem references_of_reference_count :
    let doc := Document.ofString "rule r \x7b\n  é$a = 1\n  #a > 1 and $a*\n\x7d"
    (references doc ⟨2, 3⟩).answer .never = .ok [⟨1, 4⟩, ⟨2, 3⟩, ⟨2, 14⟩] ∧
      (∃ sigil, classify? doc ⟨1, 4⟩ = some ⟨['a'], .variable sigil, ⟨⟨1, 4⟩, ⟨1, 5⟩⟩⟩) ∧
      doc.char? ⟨1, 5⟩ ≠ some '*' ∧
      (references doc ⟨1, 4⟩).answer .never = .ok [⟨1, 4⟩, ⟨2, 3⟩, ⟨2, 14⟩] := by
  intro doc
  have hsymbol : classify? doc ⟨2, 3⟩ = some ⟨['a'], .variable .hash, ⟨⟨2, 3⟩, ⟨2, 4⟩⟩⟩ := rfl
  have hfound : (references doc ⟨2, 3⟩).answer .never = .ok [⟨1, 4⟩, ⟨2, 3⟩, ⟨2, 14⟩] := by
    rw [references_eq_variableReferences hsymbol rfl rfl,
      (settles_variableReferences (by decide)).answer_never]
    rfl
  have hfree : doc.char? ⟨1, 5⟩ ≠ some '*' := by decide
  obtain ⟨sigil, hthere, hagain⟩ :=
    references_of_reference hsymbol rfl rfl _ _ hfound ⟨1, 4⟩ (by simp)
  exact ⟨hfound, ⟨sigil, hthere⟩, hfree, hagain hfree⟩

end RuleLens.Symbol
