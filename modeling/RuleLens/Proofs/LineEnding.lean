import RuleLens.Document
import RuleLens.Proofs.Text

/-!
# Line endings

Lines come out of a document as they went into its text, whichever of the two endings stands behind
each of them.  The other way round, the lines of a text give it back up to the carriage returns that
they ended with.
-/

namespace RuleLens.Document

variable {line first text : Line}

/-! ## 1. Carriage returns -/

/-- Only one carriage return is dropped. -/
theorem dropReturn_concat (line : Line) : dropReturn (line ++ ['\r']) = line := by
  unfold dropReturn
  rw [if_pos List.getLast?_concat, List.dropLast_concat]

theorem dropReturn_cons (c : Char) (line : Line) :
    dropReturn (c :: line) =
      if c == '\r' && line.isEmpty then [] else c :: dropReturn line := by
  cases line with
  | nil =>
    unfold dropReturn
    by_cases hc : c = '\r' <;> simp [hc]
  | cons d line =>
    rw [List.isEmpty_cons, Bool.and_false, if_neg Bool.false_ne_true]
    unfold dropReturn
    rw [List.getLast?_cons_cons, List.dropLast_cons_cons]
    split <;> rfl

theorem lineFeed_not_mem_dropReturn (h : '\n' ∉ line) : '\n' ∉ dropReturn line := by
  unfold dropReturn
  split
  · exact fun hmem => h (List.dropLast_subset line hmem)
  · exact h

/-! ## 2. Lines with endings between them -/

/-- What stands between two lines of a text. -/
inductive LineEnding where
  | lineFeed
  | returnAndLineFeed
deriving Repr, DecidableEq

def LineEnding.toChars : LineEnding → List Char
  | .lineFeed => ['\n']
  | .returnAndLineFeed => ['\r', '\n']

/-- The text of some lines: the first one, and the others with the endings in front of them. -/
def textOf (first : Line) (rest : List (LineEnding × Line)) : List Char :=
  first ++ rest.flatMap fun (ending, line) => ending.toChars ++ line

/-- A text can have such a line, whatever ending stands behind it. -/
def IsLine (line : Line) : Prop :=
  '\n' ∉ line ∧ line.getLast? ≠ some '\r'

instance (line : Line) : Decidable (IsLine line) :=
  inferInstanceAs (Decidable (_ ∧ _))

theorem dropReturn_of_isLine (h : IsLine line) : dropReturn line = line :=
  if_neg h.2

theorem lines_of_isLine (h : IsLine line) : (ofChars line).lines = [line] := by
  show (line.splitOn '\n').map dropReturn = [line]
  rw [List.splitOn_eq_singleton h.1, List.map_singleton, dropReturn_of_isLine h]

/-- A line and its ending are cut off the text behind them. -/
theorem lines_append_ending (h : IsLine line) (ending : LineEnding) (text : List Char) :
    (ofChars (line ++ ending.toChars ++ text)).lines = line :: (ofChars text).lines := by
  have hcut : ∀ front : Line, '\n' ∉ front →
      (ofChars (front ++ '\n' :: text)).lines = dropReturn front :: (ofChars text).lines := by
    intro front hfront
    show ((front ++ '\n' :: text).splitOn '\n').map dropReturn = _
    rw [List.splitOn_append_cons_self_of_not_mem hfront, List.map_cons]
    rfl
  cases ending with
  | lineFeed =>
    rw [LineEnding.toChars, List.append_assoc, List.singleton_append, hcut line h.1,
      dropReturn_of_isLine h]
  | returnAndLineFeed =>
    -- the carriage return is cut off with the line, which drops it
    have hfront : '\n' ∉ line ++ ['\r'] := by simp [h.1]
    have hchars : line ++ LineEnding.returnAndLineFeed.toChars ++ text =
        line ++ ['\r'] ++ '\n' :: text := by simp [LineEnding.toChars]
    rw [hchars, hcut _ hfront, dropReturn_concat]

theorem lines_textOf {rest : List (LineEnding × Line)} (hfirst : IsLine first)
    (hrest : ∀ entry ∈ rest, IsLine entry.2) :
    (ofChars (textOf first rest)).lines = first :: rest.map Prod.snd := by
  induction rest generalizing first with
  | nil =>
    have htext : textOf first [] = first := List.append_nil first
    rw [htext]
    exact lines_of_isLine hfirst
  | cons entry rest ih =>
    obtain ⟨ending, second⟩ := entry
    have htext : textOf first ((ending, second) :: rest) =
        first ++ ending.toChars ++ textOf second rest := by simp [textOf]
    rw [htext, lines_append_ending hfirst, List.map_cons,
      ih (hrest _ List.mem_cons_self) fun other hother =>
        hrest other (List.mem_cons_of_mem _ hother)]

/-! ## 3. Lines joined again -/

/-- A text without the carriage returns that end a line: one is left out where a line feed comes
next or nothing at all. -/
def withoutReturns : List Char → List Char
  | [] => []
  | c :: rest =>
    if c == '\r' && rest.head?.all (· == '\n') then withoutReturns rest
    else c :: withoutReturns rest

/-- The first line of a text is empty if a line feed comes first or nothing at all. -/
theorem isEmpty_first_line {others : List Line} (h : text.splitOn '\n' = first :: others) :
    first.isEmpty = text.head?.all (· == '\n') := by
  cases text with
  | nil =>
    cases h
    rfl
  | cons c rest =>
    obtain ⟨second, behind, hrest⟩ := List.exists_cons_of_ne_nil (List.splitOn_ne_nil '\n' rest)
    rw [List.splitOn_cons_eq_if_modifyHead, hrest] at h
    by_cases hc : c = '\n'
    · rw [if_pos (beq_iff_eq.mpr hc)] at h
      cases h
      simp [hc]
    · rw [if_neg (by rwa [beq_iff_eq])] at h
      cases h
      simp [hc]

theorem intercalate_cons_left (c : Char) (line : Line) (others : List Line) :
    ['\n'].intercalate ((c :: line) :: others) = c :: ['\n'].intercalate (line :: others) := by
  cases others with
  | nil => rw [List.intercalate_singleton, List.intercalate_singleton]
  | cons next others =>
    rw [List.intercalate_cons_cons, List.intercalate_cons_cons]
    rfl

theorem intercalate_lines (text : List Char) :
    ['\n'].intercalate (ofChars text).lines = withoutReturns text := by
  show ['\n'].intercalate ((text.splitOn '\n').map dropReturn) = _
  induction text with
  | nil => rfl
  | cons c rest ih =>
    obtain ⟨first, others, hrest⟩ := List.exists_cons_of_ne_nil (List.splitOn_ne_nil '\n' rest)
    have hempty := isEmpty_first_line hrest
    rw [hrest, List.map_cons] at ih
    rw [List.splitOn_cons_eq_if_modifyHead, hrest, withoutReturns, ← ih]
    by_cases hfeed : c = '\n'
    · -- a line feed ends an empty line in front of the rest
      subst hfeed
      rw [if_pos (beq_self_eq_true _), List.map_cons, List.map_cons, List.intercalate_cons_cons]
      rfl
    · -- any other character stands in the first line; a return that is all of it is dropped
      rw [if_neg (by rwa [beq_iff_eq]), List.modifyHead_cons, List.map_cons, dropReturn_cons,
        hempty]
      split
      · rename_i hreturn
        rw [Bool.and_eq_true, ← hempty, List.isEmpty_iff] at hreturn
        rw [hreturn.2]
        rfl
      · exact intercalate_cons_left c (dropReturn first) (others.map dropReturn)

/-! ## 4. Texts and lines -/

/-- A document has the lines that its text was made of, whatever endings were put between them, so
nothing that is asked of a document depends on the endings.  Any text has one line more than line
feeds, no line holds one, and the lines joined by line feeds are the text without the carriage
returns in front of line feeds and at its end. -/
theorem lines_up_to_endings :
    (∀ (first : Line) (rest : List (LineEnding × Line)), IsLine first →
      (∀ entry ∈ rest, IsLine entry.2) →
      ofChars (textOf first rest) = ⟨first :: rest.map Prod.snd⟩) ∧
    ∀ text : List Char, (ofChars text).lineCount = text.count '\n' + 1 ∧
      (∀ line ∈ (ofChars text).lines, '\n' ∉ line) ∧
      ['\n'].intercalate (ofChars text).lines = withoutReturns text := by
  refine ⟨fun first rest hfirst hrest => ?_, fun text => ⟨?_, ?_, intercalate_lines text⟩⟩
  · show Document.mk (ofChars (textOf first rest)).lines = _
    rw [lines_textOf hfirst hrest]
  · show ((text.splitOn '\n').map dropReturn).length = _
    rw [List.length_map, Text.length_splitOn]
  · intro line hline
    obtain ⟨piece, hpiece, rfl⟩ := List.mem_map.mp hline
    exact lineFeed_not_mem_dropReturn (Text.not_mem_of_mem_splitOn hpiece)

/-- A text with more carriage returns than its lines end with. -/
def withReturns : List Char :=
  ['a', '\r', '\r', '\n', '\r', 'b', '\n', '\r']

theorem lines_up_to_endings_withReturns :
    ofChars (textOf ['a'] [(.returnAndLineFeed, []), (.lineFeed, ['\r', 'b']),
      (.returnAndLineFeed, [])]) = ⟨[['a'], [], ['\r', 'b'], []]⟩ ∧
      (ofChars withReturns).lineCount = 3 ∧
      ['\n'].intercalate (ofChars withReturns).lines = ['a', '\r', '\n', '\r', 'b', '\n'] := by
  obtain ⟨hjoined, htext⟩ := lines_up_to_endings
  obtain ⟨hcount, -, hlines⟩ := htext withReturns
  refine ⟨hjoined _ _ (by decide) (by decide), ?_, ?_⟩
  · rw [hcount]
    rfl
  · rw [hlines]
    rfl

end RuleLens.Document
