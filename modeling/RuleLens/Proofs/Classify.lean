import RuleLens.Symbol.Basic
import RuleLens.Proofs.Document
import RuleLens.Proofs.Text

/-!
# The word at a position

A line that is cut around a word is classified as that word at every column from its first character
to right behind its last one.
-/

namespace RuleLens

/-- What a word is, by the character in front of it. -/
def SymbolKind.behind (c : Option Char) : SymbolKind :=
  match c.bind Sigil.ofChar? with
  | some sigil => .variable sigil
  | none => .ruleName

/-- `word` is a word of the line `before ++ word ++ behind`: it consists of identifier characters,
and none stands next to it. -/
structure IsWordOf (before word behind : Line) : Prop where
  ne_nil : word ≠ []
  ident : ∀ c ∈ word, isIdentChar c = true
  before_ident : ∀ c, before.getLast? = some c → isIdentChar c = false
  behind_ident : ∀ c, behind.head? = some c → isIdentChar c = false

namespace IsWordOf

variable {before word behind : Line} {doc : Document} {n col : Nat}

theorem length_left (h : IsWordOf before word behind) {i : Nat} (hi : i ≤ word.length) :
    (((before ++ word ++ behind).take (before.length + i)).reverse.takeWhile isIdentChar).length =
      i := by
  -- read backwards, the first part of the word comes up to the character in front of it
  have htake : (before ++ word ++ behind).take (before.length + i) = before ++ word.take i := by
    rw [List.append_assoc, List.take_length_add_append, List.take_append_of_le_length hi]
  rw [htake, List.reverse_append, Text.takeWhile_append_of_head?]
  · rw [List.length_reverse, List.length_take]
    omega
  · intro c hc
    exact h.ident c (List.mem_of_mem_take (List.mem_reverse.mp hc))
  · rw [List.head?_reverse]
    exact h.before_ident

theorem length_right (h : IsWordOf before word behind) {i : Nat} (hi : i ≤ word.length) :
    (((before ++ word ++ behind).drop (before.length + i)).takeWhile isIdentChar).length =
      word.length - i := by
  have hdrop : (before ++ word ++ behind).drop (before.length + i) = word.drop i ++ behind := by
    rw [List.append_assoc, List.drop_length_add_append, List.drop_append_of_le_length hi]
  rw [hdrop, Text.takeWhile_append_of_head? (fun c hc => h.ident c (List.mem_of_mem_drop hc))
    h.behind_ident, List.length_drop]

theorem getElem?_word (hi : col < word.length) :
    (before ++ word ++ behind)[before.length + col]? = some word[col] := by
  rw [List.append_assoc, List.getElem?_append_right (by omega), Nat.add_sub_cancel_left,
    List.getElem?_append_left hi, List.getElem?_eq_getElem hi]

theorem getElem?_front {i : Nat} (hi : i + 1 = before.length) :
    (before ++ word ++ behind)[i]? = before.getLast? := by
  rw [List.getLast?_eq_getElem?, ← hi, Nat.add_sub_cancel, List.append_assoc,
    List.getElem?_append_left (by omega)]

theorem getElem?_stop :
    (before ++ word ++ behind)[before.length + word.length]? = behind.head? := by
  rw [← List.length_append, List.getElem?_append_right (Nat.le_refl _), Nat.sub_self,
    ← List.head?_eq_getElem?]

theorem wordAt?_eq (h : IsWordOf before word behind) (hi : col ≤ word.length) :
    Document.wordAt? (before ++ word ++ behind) (before.length + col) =
      some (before.length, before.length + word.length) := by
  have hpos : 0 < word.length := List.length_pos_iff.mpr h.ne_nil
  unfold Document.wordAt?
  simp only
  by_cases hcol : col < word.length
  · -- the cursor is on a character of the word
    rw [getElem?_word hcol, Option.any_some, h.ident _ (List.getElem_mem hcol), if_pos rfl,
      h.length_left hi, h.length_right hi]
    simp only [Option.some.injEq, Prod.mk.injEq]
    omega
  · -- the cursor is right behind the word, which is found from its last character
    have heq : col = word.length := by omega
    have hnext : ((before ++ word ++ behind)[before.length + col]?).any isIdentChar = false := by
      rw [heq, getElem?_stop]
      cases hhead : behind.head? with
      | none => rfl
      | some c => exact h.behind_ident c hhead
    have hlast : before.length + col - 1 = before.length + (word.length - 1) := by omega
    have hlt : word.length - 1 < word.length := by omega
    rw [hnext, if_neg (by decide), hlast, getElem?_word hlt, Option.any_some,
      h.ident _ (List.getElem_mem hlt), if_pos (by simp; omega), h.length_left (by omega),
      h.length_right (by omega)]
    simp only [Option.some.injEq, Prod.mk.injEq]
    omega

theorem charBefore?_eq (hline : doc.line? n = some (before ++ word ++ behind)) :
    doc.charBefore? ⟨n, before.length⟩ = before.getLast? := by
  cases hlen : before.length with
  | zero =>
    rw [List.length_eq_zero_iff.mp hlen]
    rfl
  | succ i => rw [Document.charBefore?_of_line? hline, getElem?_front hlen.symm]

/-- The symbol at any column of a word, or right behind it, is that word. -/
theorem classify?_eq (h : IsWordOf before word behind)
    (hline : doc.line? n = some (before ++ word ++ behind)) (hi : col ≤ word.length) :
    Symbol.classify? doc ⟨n, before.length + col⟩ =
      some ⟨word, .behind before.getLast?,
        ⟨⟨n, before.length⟩, ⟨n, before.length + word.length⟩⟩⟩ := by
  have hrange : doc.wordRange? ⟨n, before.length + col⟩ =
      some ⟨⟨n, before.length⟩, ⟨n, before.length + word.length⟩⟩ := by
    simp only [Document.wordRange?, hline, h.wordAt?_eq hi, Option.bind_eq_bind, Option.bind_some]
  have htext : doc.textIn? ⟨⟨n, before.length⟩, ⟨n, before.length + word.length⟩⟩ = some word := by
    simp only [Document.textIn?, Range.isSingleLine, beq_self_eq_true, if_true, hline,
      Option.bind_eq_bind, Option.bind_some, Nat.add_sub_cancel_left]
    rw [List.append_assoc, List.drop_left, List.take_left]
  have hempty : word.isEmpty = false := by
    rw [List.isEmpty_eq_false_iff]
    exact h.ne_nil
  unfold Symbol.classify?
  simp only [hrange, htext, Option.bind_eq_bind, Option.bind_some, charBefore?_eq hline, hempty,
    Bool.false_eq_true, if_false]
  rfl

/-- Right behind a word stands what is behind it on its line. -/
theorem char?_stop (hline : doc.line? n = some (before ++ word ++ behind)) :
    doc.char? ⟨n, before.length + word.length⟩ = behind.head? := by
  simp only [Document.char?, hline, Option.bind_eq_bind, Option.bind_some]
  exact getElem?_stop

/-- Around an identifier character a line can be cut into a word and what stands next to it. -/
theorem exists_around {text : Line} {anchor : Nat}
    (h : (text[anchor]?).any isIdentChar = true) :
    ∃ before word behind, text = before ++ word ++ behind ∧ IsWordOf before word behind ∧
      before.length ≤ anchor ∧ anchor < before.length + word.length := by
  obtain ⟨c, hc, hident⟩ := (Option.any_eq_true ..).mp h
  obtain ⟨hanchor, rfl⟩ := List.getElem?_eq_some_iff.mp hc
  -- the word is what is read backwards from the anchor and what is read forwards from it
  let left := (text.take anchor).reverse.takeWhile isIdentChar
  let front := (text.take anchor).reverse.dropWhile isIdentChar
  let right := (text.drop anchor).takeWhile isIdentChar
  let behind := (text.drop anchor).dropWhile isIdentChar
  have hleft : left ++ front = (text.take anchor).reverse := List.takeWhile_append_dropWhile
  have hright : right ++ behind = text.drop anchor := List.takeWhile_append_dropWhile
  have htake : front.reverse ++ left.reverse = text.take anchor := by
    rw [← List.reverse_append, hleft, List.reverse_reverse]
  have hlength : front.length + left.length = anchor := by
    have heq := congrArg List.length htake
    rw [List.length_append, List.length_reverse, List.length_reverse, List.length_take] at heq
    omega
  have hcons : right = text[anchor] :: (text.drop (anchor + 1)).takeWhile isIdentChar := by
    change (text.drop anchor).takeWhile isIdentChar = _
    rw [List.drop_eq_getElem_cons hanchor, List.takeWhile_cons_of_pos hident]
  refine ⟨front.reverse, left.reverse ++ right, behind, ?_, ⟨?_, ?_, ?_, ?_⟩, ?_, ?_⟩
  · rw [← List.append_assoc, htake, List.append_assoc, hright, List.take_append_drop]
  · rw [hcons]
    simp
  · intro d hd
    rcases List.mem_append.mp hd with hd | hd
    · exact List.all_eq_true.mp List.all_takeWhile d (List.mem_reverse.mp hd)
    · exact List.all_eq_true.mp List.all_takeWhile d hd
  · intro d hd
    rw [List.getLast?_reverse] at hd
    have hnot := List.head?_dropWhile_not isIdentChar (text.take anchor).reverse
    change front.head? = some d at hd
    rw [hd] at hnot
    exact hnot
  · intro d hd
    have hnot := List.head?_dropWhile_not isIdentChar (text.drop anchor)
    rw [hd] at hnot
    exact hnot
  · rw [List.length_reverse]
    omega
  · rw [List.length_append, List.length_reverse, List.length_reverse, hcons, List.length_cons]
    omega

theorem exists_of_wordAt? {text : Line} {first stop : Nat}
    (h : Document.wordAt? text col = some (first, stop)) :
    ∃ before word behind i, text = before ++ word ++ behind ∧ IsWordOf before word behind ∧
      col = before.length + i ∧ i ≤ word.length := by
  unfold Document.wordAt? at h
  simp only at h
  by_cases hat : (text[col]?).any isIdentChar = true
  · rcases exists_around hat with ⟨before, word, behind, htext, hword, hle, hlt⟩
    exact ⟨before, word, behind, col - before.length, htext, hword, by omega, by omega⟩
  · rw [if_neg hat] at h
    split at h
    · rename_i hbefore
      rw [Bool.and_eq_true, decide_eq_true_eq] at hbefore
      -- the cursor is right behind the word
      rcases exists_around hbefore.2 with ⟨before, word, behind, htext, hword, hle, hlt⟩
      exact ⟨before, word, behind, col - before.length, htext, hword, by omega, by omega⟩
    · cases h

/-- Every symbol is a word of its line, which the position touches. -/
theorem exists_of_classify? {p : Position} {symbol : Symbol}
    (h : Symbol.classify? doc p = some symbol) :
    ∃ before behind i, IsWordOf before symbol.name behind ∧
      doc.line? p.line = some (before ++ symbol.name ++ behind) ∧
      p.character = before.length + i ∧ i ≤ symbol.name.length ∧
      symbol.kind = .behind before.getLast? ∧
      symbol.range = ⟨⟨p.line, before.length⟩, ⟨p.line, before.length + symbol.name.length⟩⟩ := by
  rcases p with ⟨n, col⟩
  obtain ⟨range, hrange, -⟩ := Option.bind_eq_some_iff.mp h
  obtain ⟨text, hline, hends⟩ := Option.bind_eq_some_iff.mp hrange
  obtain ⟨⟨first, stop⟩, hat, -⟩ := Option.bind_eq_some_iff.mp hends
  rcases exists_of_wordAt? hat with ⟨before, word, behind, i, rfl, hword, rfl, hi⟩
  rw [hword.classify?_eq hline hi] at h
  cases h
  exact ⟨before, behind, i, hword, hline, rfl, hi, rfl, rfl⟩

end IsWordOf

end RuleLens
