import RuleLens.Symbol.References
import RuleLens.Proofs.Classify
import RuleLens.Proofs.Uses

/-!
# Words by their columns

A word is a run of identifier characters that none stands next to.  A position has a symbol exactly
if it touches a word, the symbol is that word, and nothing that is asked about it depends on the
column at which the word is touched.
-/

namespace RuleLens

/-- An identifier character stands in the column. -/
def identAt (text : Line) (col : Nat) : Bool :=
  (text[col]?).any isIdentChar

/-- The columns from `first` on, up to but without `stop`, are a word. -/
structure WordAt (text : Line) (first stop : Nat) : Prop where
  first_lt_stop : first < stop
  ident : ∀ i, first ≤ i → i < stop → identAt text i = true
  before : ∀ i, i + 1 = first → identAt text i = false
  behind : identAt text stop = false

namespace WordAt

variable {text : Line} {first stop first' stop' col last : Nat}

/-! ## 1. Words that touch a column -/

/-- Identifier characters without a gap do not reach beyond a word that they start at. -/
theorem le_stop (h : WordAt text first stop) (hcol : col ≤ stop)
    (hrun : ∀ i, col ≤ i → i < last → identAt text i = true) : last ≤ stop := by
  apply Nat.le_of_not_lt
  intro hlt
  have hbehind := h.behind
  rw [hrun stop hcol hlt] at hbehind
  cases hbehind

theorem first_le (h : WordAt text first stop) (h' : WordAt text first' stop')
    (hle : first ≤ stop') : first ≤ first' := by
  apply Nat.le_of_not_lt
  intro hlt
  -- the character in front of the one word would be a character of the other
  have hident := h'.ident (first - 1) (by omega) (by omega)
  rw [h.before (first - 1) (by omega)] at hident
  cases hident

/-- At most one word touches a column. -/
theorem unique (h : WordAt text first stop) (h' : WordAt text first' stop') (hfirst : first ≤ col)
    (hstop : col ≤ stop) (hfirst' : first' ≤ col) (hstop' : col ≤ stop') :
    first = first' ∧ stop = stop' := by
  have hfirsts : first = first' :=
    Nat.le_antisymm (h.first_le h' (by omega)) (h'.first_le h (by omega))
  have hstops : stop = stop' :=
    Nat.le_antisymm (h'.le_stop (by omega) h.ident) (h.le_stop (by omega) h'.ident)
  exact ⟨hfirsts, hstops⟩

end WordAt

namespace IsWordOf

variable {before word behind : Line}

theorem identAt_word {i : Nat} (hident : ∀ c ∈ word, isIdentChar c = true)
    (hfirst : before.length ≤ i) (hstop : i < before.length + word.length) :
    identAt (before ++ word ++ behind) i = true := by
  have hi : i - before.length < word.length := by omega
  have hcol : before.length + (i - before.length) = i := by omega
  have hchar : (before ++ word ++ behind)[i]? = some word[i - before.length] := by
    rw [← getElem?_word hi, hcol]
  unfold identAt
  rw [hchar, Option.any_some]
  exact hident _ (List.getElem_mem hi)

/-- In a line that is cut around a word, the word has the columns behind the first part. -/
theorem wordAt (h : IsWordOf before word behind) :
    WordAt (before ++ word ++ behind) before.length (before.length + word.length) := by
  have hpos : 0 < word.length := List.length_pos_iff.mpr h.ne_nil
  refine ⟨by omega, ?_, ?_, ?_⟩
  · intro i hfirst hstop
    exact identAt_word h.ident hfirst hstop
  · intro i hi
    unfold identAt
    rw [getElem?_front hi]
    cases hlast : before.getLast? with
    | none => rfl
    | some c => exact h.before_ident c hlast
  · unfold identAt
    rw [getElem?_stop]
    cases hhead : behind.head? with
    | none => rfl
    | some c => exact h.behind_ident c hhead

theorem getLast?_eq_some_iff {c : Char} :
    before.getLast? = some c ↔
      ∃ i, i + 1 = before.length ∧ (before ++ word ++ behind)[i]? = some c := by
  constructor
  · intro h
    have hpos : 0 < before.length := List.length_pos_of_mem (List.mem_of_getLast? h)
    have hi : before.length - 1 + 1 = before.length := by omega
    exact ⟨before.length - 1, hi, (getElem?_front hi).trans h⟩
  · intro h
    rcases h with ⟨i, hi, hc⟩
    rwa [getElem?_front hi] at hc

end IsWordOf

/-! ## 2. The symbol that a word is -/

theorem Sigil.ofChar?_eq_some_iff {c : Char} {sigil : Sigil} :
    Sigil.ofChar? c = some sigil ↔ c = sigil.toChar := by
  constructor
  · intro h
    unfold Sigil.ofChar? at h
    split at h <;> cases h <;> rfl
  · rintro rfl
    exact Sigil.ofChar?_toChar sigil

namespace SymbolKind

variable {c : Option Char}

theorem behind_eq_variable_iff {sigil : Sigil} :
    behind c = .variable sigil ↔ c = some sigil.toChar := by
  cases c with
  | none => simp [behind]
  | some d =>
    rw [Option.some_inj, ← Sigil.ofChar?_eq_some_iff]
    unfold behind
    rw [Option.bind_some]
    cases Sigil.ofChar? d <;> simp

theorem behind_eq_ruleName_iff :
    behind c = .ruleName ↔ ∀ d, c = some d → d ∉ ['$', '#', '@', '!'] := by
  cases c with
  | none => simp [behind]
  | some d =>
    have hsigil := Sigil.isSome_ofChar?_iff d
    unfold behind
    rw [Option.bind_some]
    cases hchar : Sigil.ofChar? d with
    | none =>
      rw [hchar] at hsigil
      simpa using hsigil
    | some sigil =>
      rw [hchar] at hsigil
      have hmem : d ∈ ['$', '#', '@', '!'] := hsigil.mp rfl
      constructor
      · intro hkind
        cases hkind
      · intro hnone
        exact absurd hmem (hnone d rfl)

end SymbolKind

namespace Symbol

variable {doc : Document} {p q : Position} {symbol : Symbol}

/-- The symbol is the word in these columns of line `n`.  It is a variable exactly if one of the
four sigils stands in front of the word, and then has that one. -/
structure IsWordSymbol (text : Line) (n first stop : Nat) (symbol : Symbol) : Prop where
  word : WordAt text first stop
  range_eq : symbol.range = ⟨⟨n, first⟩, ⟨n, stop⟩⟩
  name_eq : symbol.name = (text.drop first).take (stop - first)
  variable_iff : ∀ sigil, symbol.kind = .variable sigil ↔
    ∃ i, i + 1 = first ∧ text[i]? = some sigil.toChar
  ruleName_iff : symbol.kind = .ruleName ↔
    ∀ i c, i + 1 = first → text[i]? = some c → c ∉ ['$', '#', '@', '!']

theorem isWordSymbol_of_classify? (h : classify? doc p = some symbol) :
    ∃ text first stop, doc.line? p.line = some text ∧ first ≤ p.character ∧
      p.character ≤ stop ∧ IsWordSymbol text p.line first stop symbol := by
  rcases IsWordOf.exists_of_classify? h with
    ⟨before, behind, i, hword, hline, hcol, hi, hkind, hrange⟩
  refine ⟨_, before.length, before.length + symbol.name.length, hline, by omega, by omega,
    hword.wordAt, hrange, ?_, ?_, ?_⟩
  · rw [List.append_assoc, List.drop_left, Nat.add_sub_cancel_left, List.take_left]
  · intro sigil
    rw [hkind, SymbolKind.behind_eq_variable_iff, IsWordOf.getLast?_eq_some_iff]
  · rw [hkind, SymbolKind.behind_eq_ruleName_iff]
    constructor
    · intro hnone j c hj hc
      exact hnone c (IsWordOf.getLast?_eq_some_iff.mpr ⟨j, hj, hc⟩)
    · intro hnone c hc
      rcases IsWordOf.getLast?_eq_some_iff.mp hc with ⟨j, hj, hchar⟩
      exact hnone j c hj hchar

/-! ## 3. Columns of one word -/

/-- An identifier character stands at the column or right in front of it. -/
def TouchesWord (text : Line) (col : Nat) : Prop :=
  identAt text col = true ∨ ∃ i, i + 1 = col ∧ identAt text i = true

theorem touchesWord_of_wordAt {text : Line} {first stop col : Nat} (h : WordAt text first stop)
    (hfirst : first ≤ col) (hstop : col ≤ stop) : TouchesWord text col := by
  by_cases hcol : col < stop
  · exact .inl (h.ident col hfirst hcol)
  · have hlt := h.first_lt_stop
    exact .inr ⟨col - 1, by omega, h.ident (col - 1) (by omega) (by omega)⟩

theorem exists_classify?_of_touchesWord {text : Line} (hline : doc.line? p.line = some text)
    (h : TouchesWord text p.character) : ∃ symbol, classify? doc p = some symbol := by
  obtain ⟨anchor, hident, hle, hlt⟩ :
      ∃ anchor, identAt text anchor = true ∧ anchor ≤ p.character ∧ p.character ≤ anchor + 1 := by
    rcases h with hat | ⟨i, hi, hident⟩
    · exact ⟨p.character, hat, by omega, by omega⟩
    · exact ⟨i, hident, by omega, by omega⟩
  rcases IsWordOf.exists_around hident with ⟨before, word, behind, rfl, hword, hfirst, hstop⟩
  have hle : p.character - before.length ≤ word.length := by omega
  have hcol : before.length + (p.character - before.length) = p.character := by omega
  have hsymbol := hword.classify?_eq hline hle
  rw [hcol] at hsymbol
  exact ⟨_, hsymbol⟩

/-- The symbol at one column of a word is the symbol at all of them. -/
theorem classify?_of_isWordSymbol {text : Line} {first stop col : Nat}
    (hline : doc.line? p.line = some text) (hsymbol : classify? doc p = some symbol)
    (hword : WordAt text first stop) (hfirst : first ≤ p.character) (hstop : p.character ≤ stop)
    (hcol : first ≤ col) (hcol' : col ≤ stop) : classify? doc ⟨p.line, col⟩ = some symbol := by
  rcases IsWordOf.exists_of_classify? hsymbol with
    ⟨before, behind, i, hcut, hline', hi, hle, hkind, hrange⟩
  rw [hline] at hline'
  cases hline'
  -- the word of the symbol touches the same column, so it has the same columns
  obtain ⟨rfl, rfl⟩ := hword.unique hcut.wordAt hfirst hstop (by omega) (by omega)
  have hle' : col - before.length ≤ symbol.name.length := by omega
  have heq : before.length + (col - before.length) = col := by omega
  have hthere := hcut.classify?_eq hline hle'
  rw [heq] at hthere
  rw [hthere, ← hkind, ← hrange]

theorem definition_congr (hp : classify? doc p = some symbol) (hq : classify? doc q = some symbol)
    (hline : p.line = q.line) : definition doc p = definition doc q := by
  simp only [definition, hp, hq, hline]

theorem references_congr [Automaton.Engine] (hp : classify? doc p = some symbol)
    (hq : classify? doc q = some symbol) (hline : p.line = q.line) :
    references doc p = references doc q := by
  simp only [references, hp, hq, hline]

/-- A position has a symbol exactly if it touches a word of its line.  The symbol is that word, and
the same questions have the same answers at all columns of the word and right behind it. -/
theorem symbol_of_touched_word [Automaton.Engine] (doc : Document) (p : Position) :
    ((∃ symbol, classify? doc p = some symbol) ↔
      ∃ text, doc.line? p.line = some text ∧ TouchesWord text p.character) ∧
    ∀ symbol, classify? doc p = some symbol →
      ∃ text first stop, doc.line? p.line = some text ∧ first ≤ p.character ∧
        p.character ≤ stop ∧ IsWordSymbol text p.line first stop symbol ∧
        ∀ col, first ≤ col → col ≤ stop →
          classify? doc ⟨p.line, col⟩ = some symbol ∧
          definition doc ⟨p.line, col⟩ = definition doc p ∧
          references doc ⟨p.line, col⟩ = references doc p := by
  constructor
  · constructor
    · intro h
      rcases h with ⟨symbol, hsymbol⟩
      rcases isWordSymbol_of_classify? hsymbol with ⟨text, first, stop, hline, hfirst, hstop, h⟩
      exact ⟨text, hline, touchesWord_of_wordAt h.word hfirst hstop⟩
    · intro h
      rcases h with ⟨text, hline, htouch⟩
      exact exists_classify?_of_touchesWord hline htouch
  · intro symbol hsymbol
    rcases isWordSymbol_of_classify? hsymbol with ⟨text, first, stop, hline, hfirst, hstop, h⟩
    refine ⟨text, first, stop, hline, hfirst, hstop, h, ?_⟩
    intro col hcol hcol'
    have hthere := classify?_of_isWordSymbol hline hsymbol h.word hfirst hstop hcol hcol'
    exact ⟨hthere, definition_congr hthere hsymbol rfl, references_congr hthere hsymbol rfl⟩

end Symbol

end RuleLens
