import RuleLens.Proofs.Agreement
import RuleLens.Proofs.Occurrence
import RuleLens.Proofs.Word

/-!
# Definitions of rules

A rule is looked up on the lines above that begin with the keyword, at the first occurrence of its
name.  Nothing asks for the whole word there, so the name may be a part of a longer one, and exactly
what stands next to the occurrence decides whether it is.
-/

namespace RuleLens

variable {doc : Document} {name : Line} {o : Position}

/-- The line begins with the keyword, whatever comes behind it. -/
def Document.keywordAt (doc : Document) (n : Nat) : Bool :=
  doc.holdsAt (['r', 'u', 'l', 'e'].isPrefixOf) n

/-! ## 1. Names inside of words -/

/-- A name occurs within one word. -/
theorem exists_wordAt_of_occursAt (hne : name ≠ []) (hname : ∀ c ∈ name, isIdentChar c = true)
    (h : doc.OccursAt name o) :
    ∃ text first stop, doc.line? o.line = some text ∧ WordAt text first stop ∧
      first ≤ o.character ∧ o.character + name.length ≤ stop := by
  rcases Document.exists_cut_of_occursAt hne h with ⟨front, tail, hlength, hline⟩
  have hpos : 0 < name.length := List.length_pos_iff.mpr hne
  have hrun : ∀ i, o.character ≤ i → i < o.character + name.length →
      identAt (front ++ name ++ tail) i = true := by
    intro i hle hlt
    exact IsWordOf.identAt_word hname (by omega) (by omega)
  have hident := hrun o.character (Nat.le_refl _) (by omega)
  rcases IsWordOf.exists_around hident with ⟨before, word, behind, htext, hword, hfirst, hstop⟩
  have hwordAt := hword.wordAt
  rw [← htext] at hwordAt
  refine ⟨_, before.length, before.length + word.length, hline, hwordAt, hfirst, ?_⟩
  -- the name has no gap, so the word does not end inside of it
  exact hwordAt.le_stop (Nat.le_of_lt hstop) hrun

/-- Identifier characters within a word are the whole word if none stands next to them. -/
theorem WordAt.eq_ends_iff {text : Line} {first stop col last : Nat} (h : WordAt text first stop)
    (hfirst : first ≤ col) (hlt : col < last) (hlast : last ≤ stop) :
    (first = col ∧ stop = last) ↔
      (∀ i, i + 1 = col → identAt text i = false) ∧ identAt text last = false := by
  constructor
  · intro heq
    rcases heq with ⟨rfl, rfl⟩
    exact ⟨h.before, h.behind⟩
  · intro hfree
    rcases hfree with ⟨hbefore, hbehind⟩
    -- with nothing next to it the part is a word itself, and only one word touches its columns
    have hpart : WordAt text col last :=
      ⟨hlt, fun i hle hi => h.ident i (by omega) (by omega), hbefore, hbehind⟩
    exact h.unique hpart hfirst (by omega) (Nat.le_refl col) (by omega)

/-! ## 2. Blocks of headers -/

theorem RuleScope.exists_locate_of_headerAt {n : Nat} (h : doc.headerAt n = true) :
    ∃ scope, (locate doc n).answer .never = .ok scope ∧ scope.first = n := by
  have hle : n ≤ min n doc.lastLine :=
    Nat.le_min.mpr ⟨Nat.le_refl n, Document.le_lastLine_of_holdsAt h⟩
  rcases exists_isBlockOf_of_headerAt h hle with ⟨scope, hscope⟩
  have hfirst := hscope.first_le
  have hnearest := hscope.le_first h hle
  exact ⟨scope, hscope.settles_locate.answer_never, by omega⟩

theorem Document.keywordAt_of_headerAt {n : Nat} (h : doc.headerAt n = true) :
    doc.keywordAt n = true := by
  rcases Document.holdsAt_eq_true_iff.mp h with ⟨text, hline, hheader⟩
  refine Document.holdsAt_eq_true_iff.mpr ⟨text, hline, ?_⟩
  unfold RuleScope.isHeader at hheader
  rw [List.isPrefixOf_iff_prefix] at hheader ⊢
  exact List.IsPrefix.trans ⟨[' '], rfl⟩ hheader

namespace Symbol

open Query

variable {p d : Position} {symbol : Symbol} {n : Nat}

/-! ## 3. Where a rule is found -/

/-- The lines above line `n` that begin with the keyword. -/
def keywordLines (doc : Document) (n : Nat) : List (Line × Nat) :=
  (doc.numbered.take n).filter fun x => ['r', 'u', 'l', 'e'].isPrefixOf x.1

theorem mem_keywordLines {x : Line × Nat} :
    x ∈ keywordLines doc n ↔
      (x.2 < n ∧ doc.keywordAt x.2 = true) ∧ doc.line? x.2 = some x.1 := by
  unfold keywordLines Document.keywordAt Document.holdsAt
  rw [List.mem_filter, Document.mem_take_numbered]
  constructor
  · intro h
    rcases h with ⟨⟨hn, hline⟩, hkeyword⟩
    exact ⟨⟨hn, by rwa [hline, Option.any_some]⟩, hline⟩
  · intro h
    rcases h with ⟨⟨hn, hkeyword⟩, hline⟩
    rw [hline, Option.any_some] at hkeyword
    exact ⟨⟨hn, hline⟩, hkeyword⟩

theorem findSome?_ite_none {α β : Type} (q : α → Bool) (f : α → Option β) (l : List α) :
    l.findSome? (fun x => if q x then f x else none) = (l.filter q).findSome? f := by
  rw [← List.head?_filterMap, ← List.filterMap_filter, List.head?_filterMap]

theorem settles_ruleDefinition (doc : Document) (n : Nat) (name : Line) :
    Settles (ruleDefinition doc n name)
      (.ok (Document.findOccurrence name (keywordLines doc n))) := by
  unfold ruleDefinition Document.findOccurrence keywordLines
  rw [← findSome?_ite_none]
  exact settles_firstOf _ _

theorem firstOccurrence_of_ruleDefinition {token : Token}
    (hd : (ruleDefinition doc n name).answer token = .ok (some d)) :
    doc.FirstOccurrence (fun k => k < n ∧ doc.keywordAt k = true) name d := by
  have hfound := Except.ok.inj ((settles_ruleDefinition doc n name).eq_of_answer hd)
  exact Document.firstOccurrence_of_findOccurrence (fun _ => mem_keywordLines)
    ((doc.pairwise_numbered.take).filter _) hfound

/-- The definition of a rule is the first occurrence of its name on a line above that begins with
the keyword.  It lies in one word, and is the whole word if no identifier character stands next to
it. -/
theorem definition_of_ruleName (hsymbol : classify? doc p = some symbol)
    (hkind : symbol.kind = .ruleName)
    (hd : (definition doc p).answer .never = .ok (some d)) :
    d.line < p.line ∧ doc.keywordAt d.line = true ∧
    (doc.headerAt d.line = true → ∃ scope,
      (RuleScope.locate doc d.line).answer .never = .ok scope ∧ scope.first = d.line) ∧
    doc.OccursAt symbol.name d ∧
    (∀ col, doc.OccursAt symbol.name ⟨d.line, col⟩ → d.character ≤ col) ∧
    (∀ q, q.line < d.line → doc.headerAt q.line = true → ¬ doc.OccursAt symbol.name q) ∧
    ∃ text first stop, doc.line? d.line = some text ∧ WordAt text first stop ∧
      first ≤ d.character ∧ d.character + symbol.name.length ≤ stop ∧
      ((first = d.character ∧ stop = d.character + symbol.name.length) ↔
        (∀ i, i + 1 = d.character → identAt text i = false) ∧
          identAt text (d.character + symbol.name.length) = false) := by
  rw [definition_eq_ruleDefinition hsymbol hkind] at hd
  have hne := name_ne_nil hsymbol
  have hoccurrence := firstOccurrence_of_ruleDefinition hd
  rcases hoccurrence.kept with ⟨habove, hkeyword⟩
  refine ⟨habove, hkeyword, RuleScope.exists_locate_of_headerAt, hoccurrence.occurs, ?_, ?_, ?_⟩
  · intro col hat
    exact hoccurrence.character_le hat
  · intro q hlt hheader hat
    have hkept : q.line < p.line ∧ doc.keywordAt q.line = true :=
      ⟨by omega, Document.keywordAt_of_headerAt hheader⟩
    have hle := hoccurrence.line_le hkept hat
    omega
  · rcases exists_wordAt_of_occursAt hne (isIdentChar_of_mem_name hsymbol) hoccurrence.occurs with
      ⟨text, first, stop, hline, hword, hfirst, hstop⟩
    have hpos : 0 < symbol.name.length := List.length_pos_iff.mpr hne
    exact ⟨text, first, stop, hline, hword, hfirst, hstop,
      hword.eq_ends_iff hfirst (by omega) hstop⟩

/-- The header of the rule itself. -/
theorem definition_of_ruleName_header :
    let doc := Document.ofString "rule Base \x7b\n\x7d\nrule Derived \x7b\n  condition: Base\n\x7d"
    (definition doc ⟨3, 13⟩).answer .never = .ok (some ⟨0, 5⟩) ∧ doc.headerAt 0 = true ∧
      ∃ scope, (RuleScope.locate doc 0).answer .never = .ok scope ∧ scope.first = 0 := by
  intro doc
  have hd : (definition doc ⟨3, 13⟩).answer .never = .ok (some ⟨0, 5⟩) := rfl
  have hheader : doc.headerAt 0 = true := rfl
  have h := @definition_of_ruleName doc ⟨3, 13⟩ ⟨0, 5⟩
    ⟨['B', 'a', 's', 'e'], .ruleName, ⟨⟨3, 13⟩, ⟨3, 17⟩⟩⟩ rfl rfl hd
  exact ⟨hd, hheader, h.2.2.1 hheader⟩

/-- The header of a rule with a longer name is found as well, and a line that begins with the
keyword but is no header. -/
theorem definition_in_longer_name :
    let doc := Document.ofString "rule Foobar \x7b\n\x7d\nFoo"
    let other := Document.ofString "rules Foo\nFoo"
    (∃ symbol, classify? doc ⟨2, 0⟩ = some symbol ∧ symbol.kind = .ruleName ∧
      (definition doc ⟨2, 0⟩).answer .never = .ok (some ⟨0, 5⟩) ∧
      doc.wordFrom ⟨0, 5⟩ ≠ symbol.name) ∧
    ∃ symbol, classify? other ⟨1, 0⟩ = some symbol ∧ symbol.kind = .ruleName ∧
      (definition other ⟨1, 0⟩).answer .never = .ok (some ⟨0, 6⟩) ∧ other.headerAt 0 = false :=
  ⟨⟨_, rfl, rfl, rfl, by decide⟩, _, rfl, rfl, rfl, rfl⟩

end Symbol

end RuleLens
