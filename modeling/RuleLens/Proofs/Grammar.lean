import RuleLens.Proofs.Document
import RuleLens.Proofs.Location

/-!
# The grammar of locations

`Spells` says how a location is written: the file, a colon, the digits of the line and perhaps
another colon and the digits of the column.  The file has no colon with a number behind it, except
that of a drive letter, so a text spells at most one location in at most one way.  The texts that
spell one, once they are trimmed, are the texts that are read.
-/

namespace RuleLens.Location

open Document (byteLength)

variable {text file numbers line : List Char} {column : Option (List Char)} {l : Location}
  {i n : Nat} {part : LocationPart}

/-! ## 1. Drive letters -/

/-- The character in column `i` is the colon of a drive letter: it stands at byte 1 of a text that
starts with an ASCII letter and a colon and is longer than these two bytes. -/
structure DriveColon (text : List Char) (i : Nat) : Prop where
  at_byte_one : byteLength (text.take i) = 1
  two_lt : 2 < byteLength text
  drive : ∃ drive rest, text = drive :: ':' :: rest ∧ drive.isAlpha = true

theorem utf8Size_of_isAlpha {c : Char} (h : c.isAlpha = true) : c.utf8Size = 1 := by
  rw [Char.utf8Size_eq_one_iff]
  cases (Bool.or_eq_true _ _).mp h with
  | inl hupper =>
    have hrange := of_decide_eq_true hupper
    exact UInt32.le_trans hrange.2 (by decide)
  | inr hlower =>
    have hrange := (Bool.and_eq_true _ _).mp hlower
    exact UInt32.le_trans (of_decide_eq_true hrange.2) (by decide)

/-- A letter and its colon have one byte each, so the colon is the second character, and there is a
third one. -/
theorem driveColon_iff :
    DriveColon text i ↔
      i = 1 ∧ ∃ drive c rest, text = drive :: ':' :: c :: rest ∧ drive.isAlpha = true := by
  have hcolon : (':' : Char).utf8Size = 1 := rfl
  constructor
  · intro h
    obtain ⟨hbyte, hlonger, drive, rest, rfl, halpha⟩ := h
    have hdrive := utf8Size_of_isAlpha halpha
    cases rest with
    | nil =>
      simp only [byteLength, hdrive, hcolon] at hlonger
      omega
    | cons c rest =>
      refine ⟨?_, drive, c, rest, rfl, halpha⟩
      cases i with
      | zero => simp [byteLength] at hbyte
      | succ i =>
        cases i with
        | zero => rfl
        | succ i =>
          simp only [List.take_succ_cons, byteLength, hdrive, hcolon] at hbyte
          omega
  · intro h
    obtain ⟨rfl, drive, c, rest, rfl, halpha⟩ := h
    have hdrive := utf8Size_of_isAlpha halpha
    have hpos := c.utf8Size_pos
    refine ⟨?_, ?_, drive, c :: rest, rfl, halpha⟩
    · simp [byteLength, hdrive]
    · simp only [byteLength, hdrive, hcolon]
      omega

theorem driveLength_eq_two_iff :
    driveLength text = 2 ↔ ∃ drive rest, text = drive :: ':' :: rest ∧ drive.isAlpha = true := by
  unfold driveLength
  split
  · simp
  · rename_i hnone
    apply iff_of_false (by simp)
    intro h
    obtain ⟨drive, rest, rfl, -⟩ := h
    exact hnone drive rest rfl

theorem driveLength_eq_zero_or_two (text : List Char) :
    driveLength text = 0 ∨ driveLength text = 2 := by
  unfold driveLength
  split
  · split
    · exact .inr rfl
    · exact .inl rfl
  · exact .inl rfl

/-- A colon within the file is that of a drive letter if the file starts with one. -/
theorem driveColon_append_iff (hi : i < file.length) :
    DriveColon (file ++ ':' :: numbers) i ↔ i = 1 ∧ driveLength file = 2 := by
  rw [driveColon_iff, driveLength_eq_two_iff]
  refine and_congr_right fun hone => ?_
  match file with
  | [] => simp at hi
  | [d] => simp [hone] at hi
  | d :: e :: rest =>
    -- behind these two there is another character in any case
    obtain ⟨c, tail, htail⟩ : ∃ c tail, rest ++ ':' :: numbers = c :: tail :=
      List.exists_cons_of_ne_nil (by simp)
    simp [htail]

/-- The colon behind the file is that of a drive letter if the file is a letter. -/
theorem driveColon_length_iff (hnumbers : numbers ≠ []) :
    DriveColon (file ++ ':' :: numbers) file.length ↔ ∃ c, file = [c] ∧ c.isAlpha = true := by
  rw [driveColon_iff]
  constructor
  · intro h
    obtain ⟨hone, drive, c, rest, htext, halpha⟩ := h
    obtain ⟨d, rfl⟩ := List.length_eq_one_iff.mp hone
    cases htext
    exact ⟨drive, rfl, halpha⟩
  · intro h
    obtain ⟨c, rfl, halpha⟩ := h
    obtain ⟨d, rest, rfl⟩ := List.exists_cons_of_ne_nil hnumbers
    exact ⟨rfl, c, d, rest, rfl, halpha⟩

/-! ## 2. Colons of the file -/

theorem startsNumber_drop_iff :
    startsNumber (text.drop i) = true ↔
      ∃ c, text[i]? = some c ∧ (c.isDigit = true ∨ c = '-') := by
  unfold startsNumber
  rw [Option.any_eq_true, List.head?_drop]
  simp only [Bool.or_eq_true, beq_iff_eq]

theorem numberFree_iff :
    NumberFree text ↔ ∀ i, text[i]? = some ':' → startsNumber (text.drop (i + 1)) = false := by
  constructor
  · intro h i hi
    obtain ⟨hlt, hcolon⟩ := List.getElem?_eq_some_iff.mp hi
    apply h (text.take i)
    rw [← hcolon, List.getElem_cons_drop, List.take_append_drop]
  · intro h s rest htext
    have hcolon := h s.length
    rw [htext, List.getElem?_append_right (Nat.le_refl _), Nat.sub_self] at hcolon
    have hrest := hcolon rfl
    rwa [List.drop_length_add_append] at hrest

/-- Behind a drive letter no colon has a number behind it, and the letter itself is no colon. -/
theorem numberFree_drop_iff :
    NumberFree (file.drop (driveLength file)) ↔
      ∀ i < file.length, file[i]? = some ':' → startsNumber (file.drop (i + 1)) = true →
        i = 1 ∧ driveLength file = 2 := by
  rw [numberFree_iff]
  simp only [List.getElem?_drop, List.drop_drop, ← Nat.add_assoc]
  constructor
  · intro h i _ hcolon hnumber
    by_cases hle : driveLength file ≤ i
    · have hfree := h (i - driveLength file)
      rw [Nat.add_sub_cancel' hle, hnumber] at hfree
      cases hfree hcolon
    · -- in front of that there are only the letter and its colon
      have htwo : driveLength file = 2 :=
        (driveLength_eq_zero_or_two file).resolve_left fun hzero => by omega
      obtain ⟨drive, rest, rfl, halpha⟩ := driveLength_eq_two_iff.mp htwo
      refine ⟨Nat.le_antisymm (by omega) (Nat.pos_of_ne_zero fun hzero => ?_), htwo⟩
      subst hzero
      cases hcolon
      cases halpha
  · intro h i hcolon
    have hlt := (List.getElem?_eq_some_iff.mp hcolon).1
    refine Bool.eq_false_iff.mpr fun hnumber => ?_
    have hone := h (driveLength file + i) hlt hcolon hnumber
    omega

/-- What a file is, said of the text that it stands in front of. -/
theorem isFile_iff (hnumbers : numbers ≠ []) :
    IsFile file ↔
      ¬ DriveColon (file ++ ':' :: numbers) file.length ∧
        ∀ i < file.length, (file ++ ':' :: numbers)[i]? = some ':' →
          startsNumber ((file ++ ':' :: numbers).drop (i + 1)) = true →
            DriveColon (file ++ ':' :: numbers) i := by
  have hdrive : (¬ DriveColon (file ++ ':' :: numbers) file.length) ↔
      ∀ c, file = [c] → c.isAlpha = false := by
    rw [driveColon_length_iff hnumbers]
    simp
  have hcolons : (∀ i < file.length, (file ++ ':' :: numbers)[i]? = some ':' →
      startsNumber ((file ++ ':' :: numbers).drop (i + 1)) = true →
        DriveColon (file ++ ':' :: numbers) i) ↔ NumberFree (file.drop (driveLength file)) := by
    rw [numberFree_drop_iff]
    refine forall_congr' fun i => imp_congr_right fun hi => ?_
    -- within the file the text is the file
    rw [List.getElem?_append_left hi, List.drop_append_of_le_length hi, startsNumber_append_colon,
      driveColon_append_iff hi]
  rw [hdrive, hcolons]
  exact ⟨fun h => ⟨h.not_drive, h.numberFree⟩, fun h => ⟨h.2, h.1⟩⟩

/-! ## 3. Numbers -/

/-- The digits of a number that a location may have. -/
structure Writes (digits : List Char) (n : Nat) : Prop where
  ne_nil : digits ≠ []
  denotes : Text.Denotes digits n
  isNumber : IsNumber n

/-- The same, with or without a plus sign in front. -/
def WritesSigned (text : List Char) (n : Nat) : Prop :=
  ∃ digits, (text = digits ∨ text = '+' :: digits) ∧ Writes digits n

theorem readNumber_eq_ok_iff_writesSigned : readNumber part text = .ok n ↔ WritesSigned text n := by
  rw [readNumber_eq_ok_iff, Text.readUpTo?_eq_some_iff]
  constructor
  · intro h
    obtain ⟨⟨digits, htext, hne, hdenotes, hle⟩, hpos⟩ := h
    exact ⟨digits, htext, hne, hdenotes, hpos, hle⟩
  · intro h
    obtain ⟨digits, htext, hne, hdenotes, hpos, hle⟩ := h
    exact ⟨⟨digits, htext, hne, hdenotes, hle⟩, hpos⟩

/-- A line number has a digit in front, so it has no sign. -/
theorem writes_of_writesSigned {c : Char} (h : WritesSigned text n) (hhead : text.head? = some c)
    (hc : c.isDigit = true) : Writes text n := by
  obtain ⟨digits, htext, hdigits⟩ := h
  cases htext with
  | inl htext => rwa [htext]
  | inr htext =>
    rw [htext, List.head?_cons] at hhead
    cases hhead
    cases hc

theorem Writes.colon_notMem (h : Writes text n) : ':' ∉ text := by
  intro hmem
  cases h.denotes.1 ':' hmem

theorem mapM_readNumber_eq_ok_iff {column? : Option Nat} :
    column.mapM (readNumber part) = .ok column? ↔ Option.Rel WritesSigned column column? := by
  rw [optionMapM_eq_ok_iff]
  cases column with
  | none => cases column? <;> simp
  | some text =>
    cases column? with
    | none => simp
    | some n => simp [readNumber_eq_ok_iff_writesSigned]

theorem eq_append_behindLine_of_cutColon (h : cutColon numbers = (line, column)) :
    numbers = line ++ behindLine column := by
  obtain ⟨rfl, rfl⟩ := Prod.mk.inj h
  have hcut : numbers.takeWhile (· != ':') ++ numbers.dropWhile (· != ':') = numbers :=
    List.takeWhile_append_dropWhile
  have hhead := List.head?_dropWhile_not (· != ':') numbers
  cases hrest : numbers.dropWhile (· != ':') with
  | nil =>
    rw [hrest] at hcut
    exact hcut.symm
  | cons c rest =>
    rw [hrest] at hhead hcut
    obtain rfl : c = ':' := by simpa using hhead
    exact hcut.symm

/-! ## 4. Spelling -/

/-- The text is a spelling of the location, with `line` and `column` for its numbers.  The colon
behind the file is not that of a drive letter, and no other colon of the file has a digit or a minus
sign behind it. -/
structure Spells (text : List Char) (l : Location) (line : List Char)
    (column : Option (List Char)) : Prop where
  joined : text = l.file.text.toList ++ ':' :: (line ++ behindLine column)
  writes_line : Writes line l.line
  writes_column : Option.Rel WritesSigned column l.column
  not_drive : ¬ DriveColon text l.file.text.toList.length
  number_free : ∀ i < l.file.text.toList.length, text[i]? = some ':' →
    (∃ c, text[i + 1]? = some c ∧ (c.isDigit = true ∨ c = '-')) → DriveColon text i

theorem spells_iff :
    Spells text l line column ↔
      ∃ numbers, split text = .ok (l.file.text.toList, numbers) ∧
        cutColon numbers = (line, column) ∧ readNumber .line line = .ok l.line ∧
        column.mapM (readNumber .column) = .ok l.column := by
  constructor
  · intro h
    -- the first digit of the line is what the text is split in front of
    obtain ⟨digit, rest, hdigits⟩ := List.exists_cons_of_ne_nil h.writes_line.ne_nil
    have hdigit : digit.isDigit = true := h.writes_line.denotes.1 digit (by simp [hdigits])
    have hnumbers : line ++ behindLine column ≠ [] := by simp [hdigits]
    have hfile : IsFile l.file.text.toList := by
      rw [isFile_iff hnumbers, ← h.joined]
      simp only [startsNumber_drop_iff]
      exact ⟨h.not_drive, h.number_free⟩
    refine ⟨line ++ behindLine column, ?_,
      cutColon_append_behindLine h.writes_line.colon_notMem, ?_, ?_⟩
    · exact split_eq_ok_iff.mpr ⟨hfile, h.joined, digit, by simp [hdigits], hdigit⟩
    · exact readNumber_eq_ok_iff_writesSigned.mpr ⟨line, .inl rfl, h.writes_line⟩
    · exact mapM_readNumber_eq_ok_iff.mpr h.writes_column
  · intro h
    obtain ⟨numbers, hsplit, hcut, hline, hcolumn⟩ := h
    obtain ⟨hfile, htext, digit, hhead, hdigit⟩ := split_eq_ok_iff.mp hsplit
    have hnumbers : numbers ≠ [] := by
      rintro rfl
      cases hhead
    rw [isFile_iff hnumbers, ← htext] at hfile
    simp only [startsNumber_drop_iff] at hfile
    have hparts := eq_append_behindLine_of_cutColon hcut
    have hsigned := readNumber_eq_ok_iff_writesSigned.mp hline
    refine ⟨by rw [htext, hparts], ?_, mapM_readNumber_eq_ok_iff.mp hcolumn, hfile.1, hfile.2⟩
    -- the text was split in front of a digit, and that is the first character of the line number
    obtain ⟨first, rest, hfirst⟩ : ∃ first rest, line = first :: rest := by
      obtain ⟨digits, rfl | rfl, hdigits⟩ := hsigned
      · exact List.exists_cons_of_ne_nil hdigits.ne_nil
      · exact ⟨_, _, rfl⟩
    refine writes_of_writesSigned hsigned ?_ hdigit
    rw [hparts, hfirst] at hhead
    rw [hfirst]
    exact hhead

theorem Spells.unique {l' : Location} {line' : List Char} {column' : Option (List Char)}
    (h : Spells text l line column) (h' : Spells text l' line' column') :
    l = l' ∧ line = line' ∧ column = column' := by
  obtain ⟨numbers, hsplit, hcut, hline, hcolumn⟩ := spells_iff.mp h
  obtain ⟨numbers', hsplit', hcut', hline', hcolumn'⟩ := spells_iff.mp h'
  -- each part is what a function gives for the parts before it
  rw [hsplit] at hsplit'
  obtain ⟨hfile, rfl⟩ := Prod.mk.inj (Except.ok.inj hsplit')
  rw [hcut] at hcut'
  obtain ⟨rfl, rfl⟩ := Prod.mk.inj hcut'
  rw [hline] at hline'
  rw [hcolumn] at hcolumn'
  obtain ⟨⟨path⟩, n, column?⟩ := l
  obtain ⟨⟨path'⟩, n', column?'⟩ := l'
  cases String.toList_inj.mp hfile
  cases hline'
  cases hcolumn'
  exact ⟨rfl, rfl, rfl⟩

/-- The texts that are read are those that spell a location once they are trimmed, and every other
text is refused.  A text spells at most one location, in at most one way. -/
theorem ofString_iff_spells (input : String) :
    (∀ l, ofString input = .ok l ↔ ∃ line column, Spells (Text.trim input.toList) l line column) ∧
    ((∀ l line column, ¬ Spells (Text.trim input.toList) l line column) →
      ∃ e, ofString input = .error e) ∧
    ∀ l line column l' line' column', Spells (Text.trim input.toList) l line column →
      Spells (Text.trim input.toList) l' line' column' →
      l = l' ∧ line = line' ∧ column = column' := by
  have hread : ∀ l, ofString input = .ok l ↔
      ∃ line column, Spells (Text.trim input.toList) l line column := by
    intro l
    simp only [spells_iff]
    unfold ofString
    rw [ofChars_eq_ok_iff]
    constructor
    · intro h
      obtain ⟨numbers, hsplit, hline, hcolumn⟩ := h
      exact ⟨_, _, numbers, hsplit, rfl, hline, hcolumn⟩
    · intro h
      obtain ⟨line, column, numbers, hsplit, hcut, hline, hcolumn⟩ := h
      refine ⟨numbers, hsplit, ?_⟩
      rw [hcut]
      exact ⟨hline, hcolumn⟩
  refine ⟨hread, ?_, ?_⟩
  · intro hnone
    cases hresult : ofString input with
    | error e => exact ⟨e, rfl⟩
    | ok l =>
      obtain ⟨line, column, h⟩ := (hread l).mp hresult
      exact absurd h (hnone l line column)
  · intro l line column l' line' column' h h'
    exact h.unique h'

/-- A drive letter keeps its colon, whatever stands behind it: the second text has no line
number. -/
theorem ofString_iff_spells_drive :
    (∃ line column, Spells (Text.trim " C:1:b.yara:007:+12 ".toList) ⟨⟨"C:1:b.yara"⟩, 7, some 12⟩
      line column) ∧
    (∀ l line column, ¬ Spells (Text.trim "C:1".toList) l line column) ∧
    ∃ e, ofString "C:1" = .error e := by
  have hread : ofString " C:1:b.yara:007:+12 " = .ok ⟨⟨"C:1:b.yara"⟩, 7, some 12⟩ := by
    decide +kernel
  have hrefused : ofString "C:1" = .error .noLine := by decide +kernel
  have hnone : ∀ l line column, ¬ Spells (Text.trim "C:1".toList) l line column := by
    intro l line column h
    have hread' := ((ofString_iff_spells "C:1").1 l).mpr ⟨line, column, h⟩
    rw [hrefused] at hread'
    cases hread'
  exact ⟨((ofString_iff_spells " C:1:b.yara:007:+12 ").1 _).mp hread, hnone,
    (ofString_iff_spells "C:1").2.1 hnone⟩

end RuleLens.Location
