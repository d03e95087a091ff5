import RuleLens.Location.Basic
import RuleLens.Proofs.Failing
import RuleLens.Proofs.Text

/-!
# Locations read back

A location that was read is read again from its own text, whatever it was written like before: with
blanks around it, with zeros in front of its numbers or with a sign at its column.  The name of the
file decides where it ends: no colon of it has a number behind it, except that of a drive letter.
So it may stand in front of any other numbers as well.
-/

namespace RuleLens.Location

open Text (Denotes)

variable {front rest file numbers text : List Char} {l : Location}

/-! ## 1. Where the file ends -/

/-- No colon has a number behind it. -/
def NumberFree (front : List Char) : Prop :=
  ∀ s rest, front = s ++ ':' :: rest → startsNumber rest = false

theorem startsNumber_append_colon (rest numbers : List Char) :
    startsNumber (rest ++ ':' :: numbers) = startsNumber rest := by
  cases rest <;> rfl

theorem numberFree_nil : NumberFree [] := by
  intro s rest h
  cases s <;> cases h

theorem numberFree_cons {c : Char} :
    NumberFree (c :: front) ↔ (c = ':' → startsNumber front = false) ∧ NumberFree front := by
  apply Iff.intro
  · intro h
    refine ⟨fun hc => h [] front (by rw [hc, List.nil_append]), ?_⟩
    intro s rest heq
    exact h (c :: s) rest (by rw [heq, List.cons_append])
  · rintro ⟨hc, hfront⟩ s rest heq
    cases s with
    | nil =>
      cases heq
      exact hc rfl
    | cons d s =>
      cases heq
      exact hfront s rest rfl

/-- A text is split at its first colon with a number behind it. -/
theorem splitFrom_eq_some_iff {read : List Char} :
    splitFrom read text = some (file, numbers) ↔
      ∃ front, file = read.reverse ++ front ∧ text = front ++ ':' :: numbers ∧
        NumberFree front ∧ startsNumber numbers = true := by
  induction text generalizing read with
  | nil => simp [splitFrom]
  | cons c rest ih =>
    rw [splitFrom]
    by_cases hc : c = ':' ∧ startsNumber rest = true
    · rw [if_pos (by simpa using hc)]
      obtain ⟨rfl, hrest⟩ := hc
      apply Iff.intro
      · intro h
        cases h
        exact ⟨[], by simp, rfl, numberFree_nil, hrest⟩
      · rintro ⟨front, rfl, htext, hfront, hnumbers⟩
        cases front with
        | nil =>
          cases htext
          simp
        | cons d front =>
          -- the colon in front of the number would be one of the file
          rw [List.cons_append, List.cons.injEq] at htext
          obtain ⟨rfl, rfl⟩ := htext
          rw [startsNumber_append_colon, (numberFree_cons.mp hfront).1 rfl] at hrest
          cases hrest
    · rw [if_neg (by simpa using hc), ih]
      apply Iff.intro
      · rintro ⟨front, rfl, rfl, hfront, hnumbers⟩
        refine ⟨c :: front, by simp, rfl, numberFree_cons.mpr ⟨fun hcolon => ?_, hfront⟩, hnumbers⟩
        rw [startsNumber_append_colon] at hc
        exact Bool.eq_false_iff.mpr fun hnumber => hc ⟨hcolon, hnumber⟩
      · rintro ⟨front, rfl, htext, hfront, hnumbers⟩
        cases front with
        | nil =>
          cases htext
          exact absurd ⟨rfl, hnumbers⟩ hc
        | cons d front =>
          rw [List.cons_append, List.cons.injEq] at htext
          obtain ⟨rfl, rfl⟩ := htext
          exact ⟨front, by simp, rfl, (numberFree_cons.mp hfront).2, hnumbers⟩

/-- How many characters a drive letter and its colon take at the start of a text. -/
def driveLength : List Char → Nat
  | drive :: ':' :: _ => if drive.isAlpha then 2 else 0
  | _ => 0

theorem driveLength_le_length (text : List Char) : driveLength text ≤ text.length := by
  unfold driveLength
  split
  · split <;> simp
  · exact Nat.zero_le _

/-- What may stand in front of the colon and the number of a line. -/
structure IsFile (file : List Char) : Prop where
  numberFree : NumberFree (file.drop (driveLength file))
  not_drive : ∀ c, file = [c] → c.isAlpha = false

theorem driveLength_append (h : ∀ c, file = [c] → c.isAlpha = false) :
    driveLength (file ++ ':' :: numbers) = driveLength file := by
  match file with
  | [] =>
    -- a colon is no drive letter
    simp only [List.nil_append, driveLength]
    split
    · rename_i heq
      cases heq
      rfl
    · rfl
  | [c] => simp [driveLength, h c rfl]
  | c :: d :: rest =>
    by_cases hd : d = ':'
    · subst hd
      rfl
    · simp [driveLength, hd]

/-- Where a location is split: behind a drive letter, if there is one. -/
theorem split_eq (text : List Char) :
    split text =
      match splitFrom (text.take (driveLength text)).reverse (text.drop (driveLength text)) with
      | none => .error .noLine
      | some (file, numbers) =>
        if numbers.head? = some '-' then .error .negativeLine else .ok (file, numbers) := by
  unfold split
  dsimp only
  -- what follows the search is the same on both sides
  congr 1
  split
  · rename_i drive c rest
    by_cases hdrive : drive.isAlpha = true
    · rw [if_pos hdrive, show driveLength (drive :: ':' :: c :: rest) = 2 from if_pos hdrive]
      rfl
    · rw [if_neg hdrive, show driveLength (drive :: ':' :: c :: rest) = 0 from if_neg hdrive]
      rfl
  · rename_i hshort
    unfold driveLength
    split
    · rename_i drive behind
      match behind with
      | [] =>
        -- a drive letter without anything behind it has no number either
        split <;> simp [splitFrom, startsNumber]
      | c :: rest => exact absurd rfl (hshort drive c rest)
    · rfl

/-- A location is split behind a file, at a colon with a digit behind it. -/
theorem split_eq_ok_iff :
    split text = .ok (file, numbers) ↔
      IsFile file ∧ text = file ++ ':' :: numbers ∧
        ∃ c, numbers.head? = some c ∧ c.isDigit = true := by
  rw [split_eq]
  apply Iff.intro
  · intro h
    split at h
    · cases h
    rename_i found name digits hfound
    split at h
    · cases h
    rename_i hminus
    obtain ⟨rfl, rfl⟩ : name = file ∧ digits = numbers := by simpa using h
    obtain ⟨front, hname, hbehind, hfront, hstarts⟩ := splitFrom_eq_some_iff.mp hfound
    rw [List.reverse_reverse] at hname
    have htext : text = name ++ ':' :: digits := by
      rw [hname, List.append_assoc, ← hbehind, List.take_append_drop]
    -- a drive letter in front of the colon would have been read with it
    have hdrive : ∀ c, name = [c] → c.isAlpha = false := by
      intro c hc
      refine Bool.eq_false_iff.mpr fun halpha => ?_
      have hk : driveLength text = 2 := by
        rw [htext, hc]
        show (if c.isAlpha then 2 else 0) = 2
        rw [halpha]
        rfl
      have hlen := congrArg List.length hname
      rw [hc, hk, htext, hc] at hlen
      simp at hlen
    refine ⟨⟨?_, hdrive⟩, htext, ?_⟩
    · have hk : driveLength name = driveLength text := by rw [htext, driveLength_append hdrive]
      rw [hk, hname, List.drop_left' (List.length_take_of_le (driveLength_le_length text))]
      exact hfront
    · obtain ⟨c, hhead, hc⟩ := (Option.any_eq_true _ _).mp hstarts
      refine ⟨c, hhead, ?_⟩
      rw [Bool.or_eq_true, beq_iff_eq] at hc
      apply hc.resolve_right
      intro heq
      exact hminus (by rw [hhead, heq])
  · rintro ⟨hfile, rfl, c, hhead, hc⟩
    have hsplit : splitFrom ((file ++ ':' :: numbers).take (driveLength file)).reverse
        ((file ++ ':' :: numbers).drop (driveLength file)) = some (file, numbers) := by
      have hle := driveLength_le_length file
      rw [List.take_append_of_le_length hle, List.drop_append_of_le_length hle,
        splitFrom_eq_some_iff]
      refine ⟨file.drop (driveLength file), by simp, rfl, hfile.numberFree, ?_⟩
      simp [startsNumber, hhead, hc]
    have hminus : numbers.head? ≠ some '-' := by
      rw [hhead]
      rintro ⟨⟩
      cases hc
    rw [driveLength_append hfile.not_drive, hsplit]
    exact if_neg hminus

/-! ## 2. The numbers -/

theorem readNumber_eq_ok_iff {part : LocationPart} {n : Nat} :
    readNumber part text = .ok n ↔ Text.readUpTo? Text.max32 text = some n ∧ 1 ≤ n := by
  unfold readNumber
  split
  · rename_i hnone
    simp [hnone]
  · rename_i hzero
    rw [hzero]
    apply Iff.intro
    · intro h
      cases h
    · rintro ⟨h, hpos⟩
      cases h
      cases hpos
  · rename_i m hm hsome
    rw [hsome]
    apply Iff.intro
    · intro h
      cases h
      exact ⟨rfl, Nat.pos_of_ne_zero hm⟩
    · rintro ⟨h, -⟩
      cases h
      rfl

/-- A number of a location: it counts from 1 and has 32 bits. -/
def IsNumber (n : Nat) : Prop := 1 ≤ n ∧ n ≤ Text.max32

theorem isNumber_of_readNumber {part : LocationPart} {n : Nat}
    (h : readNumber part text = .ok n) : IsNumber n := by
  obtain ⟨hread, hpos⟩ := readNumber_eq_ok_iff.mp h
  obtain ⟨-, -, -, -, hle⟩ := Text.readUpTo?_eq_some_iff.mp hread
  exact ⟨hpos, hle⟩

theorem readNumber_decimal {n : Nat} (part : LocationPart) (h : IsNumber n) :
    readNumber part (Text.decimal n) = .ok n := by
  rw [readNumber_eq_ok_iff, Text.readUpTo?_eq_some_iff]
  exact ⟨⟨Text.decimal n, .inl rfl, Nat.toDigits_ne_nil, Text.denotes_decimal n, h.2⟩, h.1⟩

theorem colon_notMem_decimal (n : Nat) : ':' ∉ Text.decimal n := by
  intro hcolon
  cases (Text.denotes_decimal n).1 ':' hcolon

/-- What stands behind the digits of the line. -/
def behindLine : Option (List Char) → List Char
  | some column => ':' :: column
  | none => []

theorem cutColon_append_behindLine {line : List Char} {column : Option (List Char)}
    (hline : ':' ∉ line) : cutColon (line ++ behindLine column) = (line, column) := by
  have hall : ∀ c ∈ line, (c != ':') = true := by
    intro c hc
    rw [bne_iff_ne]
    rintro rfl
    exact hline hc
  unfold cutColon
  rw [List.takeWhile_append_of_pos hall, List.dropWhile_append_of_pos hall]
  cases column <;> simp [behindLine]

/-! ## 3. Reading -/

/-- A location is read part by part from the trimmed text. -/
theorem ofChars_eq_ok_iff {input : List Char} :
    ofChars input = .ok l ↔
      ∃ numbers, split (Text.trim input) = .ok (l.file.text.toList, numbers) ∧
        readNumber .line (cutColon numbers).1 = .ok l.line ∧
        (cutColon numbers).2.mapM (readNumber .column) = .ok l.column := by
  simp only [ofChars]
  by_cases hempty : Text.trim input = []
  · -- a text without a colon is not split
    rw [hempty]
    refine iff_of_false (fun h => ?_) ?_
    · cases h
    · rintro ⟨numbers, hsplit, -⟩
      cases hsplit
  rw [if_neg (by simpa using hempty)]
  apply Iff.intro
  · intro h
    obtain ⟨⟨name, numbers⟩, hsplit, h⟩ := bind_eq_ok_iff.mp h
    obtain ⟨line, hline, h⟩ := bind_eq_ok_iff.mp h
    obtain ⟨column, hcolumn, h⟩ := bind_eq_ok_iff.mp h
    cases h
    refine ⟨numbers, ?_, hline, hcolumn⟩
    show split (Text.trim input) = .ok ((String.ofList name).toList, numbers)
    rw [hsplit, String.toList_ofList]
  · rintro ⟨numbers, hsplit, hline, hcolumn⟩
    refine bind_eq_ok_iff.mpr ⟨_, hsplit, bind_eq_ok_iff.mpr ⟨_, hline, ?_⟩⟩
    refine bind_eq_ok_iff.mpr ⟨_, hcolumn, ?_⟩
    show Except.ok _ = _
    rw [String.ofList_toList]

/-- The locations that there are texts of. -/
structure Readable (l : Location) : Prop where
  isFile : IsFile l.file.text.toList
  not_blank : ∀ c, l.file.text.toList.head? = some c → Text.isBlank c = false
  line : IsNumber l.line
  column : ∀ n, l.column = some n → IsNumber n

theorem readable_of_ofChars {input : List Char} (h : ofChars input = .ok l) : Readable l := by
  obtain ⟨numbers, hsplit, hline, hcolumn⟩ := ofChars_eq_ok_iff.mp h
  obtain ⟨hfile, htext, -⟩ := split_eq_ok_iff.mp hsplit
  refine ⟨hfile, ?_, isNumber_of_readNumber hline, ?_⟩
  · intro c hc
    obtain ⟨front, hfront⟩ := List.head?_eq_some_iff.mp hc
    rw [hfront] at htext
    exact Text.isBlank_head_trim htext
  · intro n hn
    rw [optionMapM_eq_ok_iff, hn, Option.map_some, Option.map_eq_some_iff] at hcolumn
    obtain ⟨digits, -, hread⟩ := hcolumn
    exact isNumber_of_readNumber hread

/-- The numbers of a location as they are written. -/
def writtenNumbers (l : Location) : List Char :=
  Text.decimal l.line ++ match l.column with
    | some column => ':' :: Text.decimal column
    | none => []

theorem toChars_eq (l : Location) : l.toChars = l.file.text.toList ++ ':' :: l.writtenNumbers := by
  exact List.append_assoc l.file.text.toList (':' :: Text.decimal l.line) _

theorem cutColon_writtenNumbers (l : Location) :
    cutColon l.writtenNumbers = (Text.decimal l.line, l.column.map Text.decimal) := by
  have hwritten : l.writtenNumbers =
      Text.decimal l.line ++ behindLine (l.column.map Text.decimal) := by
    unfold writtenNumbers
    cases l.column <;> rfl
  rw [hwritten, cutColon_append_behindLine (colon_notMem_decimal l.line)]

theorem isBlank_getLast_of_decimal_suffix {n : Nat} (h : Text.decimal n <:+ text) :
    ∀ c, text.getLast? = some c → Text.isBlank c = false := by
  intro c hc
  obtain ⟨front, rfl⟩ := h
  have hlast : (Text.decimal n).getLast? = some ((Text.decimal n).getLast Nat.toDigits_ne_nil) :=
    List.getLast?_eq_some_getLast _
  rw [List.getLast?_append, hlast, Option.some_or] at hc
  cases hc
  exact Text.isBlank_of_isDigit ((Text.denotes_decimal n).1 _ (List.getLast_mem _))

theorem exists_digit_of_decimal (n : Nat) :
    ∃ c rest, Text.decimal n = c :: rest ∧ c.isDigit = true := by
  obtain ⟨c, rest, h⟩ := List.exists_cons_of_ne_nil (Nat.toDigits_ne_nil (n := n) (b := 10))
  refine ⟨c, rest, h, (Text.denotes_decimal n).1 c ?_⟩
  rw [Text.decimal, h]
  exact List.mem_cons_self

theorem trim_toChars (h : Readable l) : Text.trim l.toChars = l.toChars := by
  apply Text.trim_of_not_isBlank
  · intro c hc
    rw [toChars_eq, List.head?_append] at hc
    cases hhead : l.file.text.toList.head? with
    | none =>
      rw [hhead] at hc
      cases hc
      rfl
    | some d =>
      rw [hhead] at hc
      cases hc
      exact h.not_blank c hhead
  · unfold toChars
    cases l.column with
    | none =>
      rw [List.append_nil]
      apply isBlank_getLast_of_decimal_suffix
      exact (List.suffix_cons _ _).trans (List.suffix_append _ _)
    | some column =>
      apply isBlank_getLast_of_decimal_suffix
      exact (List.suffix_cons _ _).trans (List.suffix_append _ _)

theorem ofChars_toChars (h : Readable l) : ofChars l.toChars = .ok l := by
  rw [ofChars_eq_ok_iff, trim_toChars h]
  refine ⟨l.writtenNumbers, ?_, ?_⟩
  · rw [split_eq_ok_iff]
    obtain ⟨c, rest, hdigits, hc⟩ := exists_digit_of_decimal l.line
    refine ⟨h.isFile, toChars_eq l, c, ?_, hc⟩
    rw [writtenNumbers, hdigits]
    rfl
  · rw [cutColon_writtenNumbers]
    refine ⟨readNumber_decimal .line h.line, ?_⟩
    rw [optionMapM_eq_ok_iff]
    cases hcolumn : l.column with
    | none => rfl
    | some column => exact congrArg some (readNumber_decimal .column (h.column column hcolumn))

/-! ## 4. Positions -/

theorem isNumber_displayNumber (n : Nat) : IsNumber (displayNumber n) := by
  unfold IsNumber displayNumber Text.max32
  omega

/-- Below the largest number, what is shown stands for what it was shown for. -/
theorem ofDisplay_toDisplay {p : Position} (hline : p.line < Text.max32)
    (hcharacter : p.character < Text.max32) :
    Position.ofDisplay p.toDisplay.1 p.toDisplay.2 = p := by
  unfold Position.ofDisplay Position.toDisplay displayNumber
  rw [Nat.min_eq_left hline, Nat.min_eq_left hcharacter]
  rfl

/-- The location that is shown for a position in the same file. -/
def showing (l : Location) (p : Position) : Location :=
  { l with line := p.toDisplay.1, column := some p.toDisplay.2 }

theorem Readable.showing (h : Readable l) (p : Position) : Readable (l.showing p) := by
  refine ⟨h.isFile, h.not_blank, isNumber_displayNumber p.line, ?_⟩
  intro n hn
  cases hn
  exact isNumber_displayNumber p.character

theorem ofString_toString (h : Readable l) : ofString l.toString = .ok l := by
  unfold ofString toString
  rw [String.toList_ofList]
  exact ofChars_toChars h

/-- A location that was read is read again from its own text, and so is every other position of its
file from the location shown for it. -/
theorem ofString_toString_showing {input : String} (h : ofString input = .ok l) :
    ofString l.toString = .ok l ∧
      ∀ p : Position, p.line < Text.max32 → p.character < Text.max32 →
        ofString (l.showing p).toString = .ok (l.showing p) ∧ (l.showing p).position = p := by
  have hl : Readable l := readable_of_ofChars h
  refine ⟨ofString_toString hl, ?_⟩
  intro p hline hcharacter
  exact ⟨ofString_toString (hl.showing p), ofDisplay_toDisplay hline hcharacter⟩

/-- A drive letter, a colon in the name of the file, zeros in front of the line and a sign in front
of the column. -/
theorem ofString_toString_showing_drive :
    let l : Location := ⟨⟨"C:\\a:b.yara"⟩, 7, some 12⟩
    ofString " C:\\a:b.yara:007:+12 " = .ok l ∧ ofString "C:\\a:b.yara:7:12" = .ok l ∧
      ofString "C:\\a:b.yara:1:4294967295" = .ok ⟨⟨"C:\\a:b.yara"⟩, 1, some 4294967295⟩ ∧
      (l.showing ⟨0, 4294967294⟩).position = ⟨0, 4294967294⟩ := by
  intro l
  have hread : ofString " C:\\a:b.yara:007:+12 " = .ok l := by decide +kernel
  have hwritten : l.toString = "C:\\a:b.yara:7:12" := by decide +kernel
  have hshown : (l.showing ⟨0, 4294967294⟩).toString = "C:\\a:b.yara:1:4294967295" := by
    decide +kernel
  obtain ⟨hback, hall⟩ := ofString_toString_showing hread
  have hposition := hall ⟨0, 4294967294⟩ (by decide) (by decide)
  rw [hwritten] at hback
  rw [hshown] at hposition
  exact ⟨hread, hback, hposition⟩

end RuleLens.Location
