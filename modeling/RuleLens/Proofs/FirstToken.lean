import RuleLens.Proofs.Resolve
import RuleLens.Proofs.Uses
import RuleLens.Proofs.Word

/-!
# The first token of a line

A location without a column means the first token of its line: an identifier behind the indentation,
or one behind a sigil there.  A line that starts with anything else, a blank line and a line past
the end have no symbol at the position that is meant, whatever stands further on.
-/

namespace RuleLens

variable {text : Line} {first col n : Nat} {c : Char} {doc : Document} {kind : SymbolKind}
  {symbol : Symbol}

/-! ## 1. What a line starts with -/

theorem toNat_of_isIdentChar (h : isIdentChar c = true) : 0x30 ≤ c.toNat ∧ c.toNat ≤ 0x7a := by
  change ((decide (c.val ≥ 65 ∧ c.val ≤ 90) || c.val ≥ 97 && c.val ≤ 122) ||
    c.val ≥ 48 && c.val ≤ 57 || c == '_') = true at h
  simp only [Bool.or_eq_true, Bool.and_eq_true, decide_eq_true_eq, beq_iff_eq, ge_iff_le,
    UInt32.le_iff_toNat_le] at h
  rcases h with ((h | h) | h) | rfl
  · exact ⟨Nat.le_trans (by decide) h.1, Nat.le_trans h.2 (by decide)⟩
  · exact ⟨Nat.le_trans (by decide) h.1, Nat.le_trans h.2 (by decide)⟩
  · exact ⟨Nat.le_trans (by decide) h.1, Nat.le_trans h.2 (by decide)⟩
  · decide

/-- Nothing blank belongs to an identifier. -/
theorem not_isIdentChar_of_isBlank (h : Text.isBlank c = true) : isIdentChar c = false := by
  apply Bool.eq_false_iff.mpr
  intro hident
  have hrange := toNat_of_isIdentChar hident
  simp only [Text.isBlank, Bool.or_eq_true, Bool.and_eq_true, decide_eq_true_eq, beq_iff_eq] at h
  omega

/-- The first character of the line that is not blank is `c`, in column `col`. -/
structure StartsWith (text : Line) (col : Nat) (c : Char) : Prop where
  blank : ∀ d ∈ text.take col, Text.isBlank d = true
  char : text[col]? = some c
  not_blank : Text.isBlank c = false

theorem StartsWith.indent_eq (h : StartsWith text col c) : Document.indent text = col := by
  obtain ⟨hcol, hc⟩ := List.getElem?_eq_some_iff.mp h.char
  have hcut : text = text.take col ++ c :: text.drop (col + 1) := by
    rw [← hc, ← List.drop_eq_getElem_cons hcol, List.take_append_drop]
  unfold Document.indent
  rw [hcut, List.takeWhile_append_of_pos h.blank,
    List.takeWhile_cons_of_neg (by rw [h.not_blank]; decide), List.append_nil, List.length_take]
  omega

theorem startsWith_of_indent (h : text[Document.indent text]? = some c) :
    StartsWith text (Document.indent text) c := by
  obtain ⟨hblank, hstop⟩ := Document.isIndent_indent text
  refine ⟨hblank, h, ?_⟩
  rcases hstop with ⟨d, hd, hnot⟩ | hend
  · rw [h] at hd
    cases hd
    exact hnot
  · rw [List.getElem?_eq_none (Nat.le_of_eq hend.symm)] at h
    cases h

/-- What a line starts with, if that is a symbol: its kind, and the column where its name starts. -/
inductive FirstToken (text : Line) : SymbolKind → Nat → Prop
  /-- An identifier with nothing in front. -/
  | ruleName {col : Nat} {c : Char} (hstart : StartsWith text col c)
      (hident : isIdentChar c = true) : FirstToken text .ruleName col
  /-- An identifier right behind a sigil. -/
  | behindSigil {col : Nat} {sigil : Sigil} (hstart : StartsWith text col sigil.toChar)
      (hident : identAt text (col + 1) = true) : FirstToken text (.variable sigil) (col + 1)

/-! ## 2. The symbol there -/

theorem Sigil.not_isIdentChar_toChar (sigil : Sigil) : isIdentChar sigil.toChar = false :=
  Sigil.not_isIdentChar (by rw [Sigil.ofChar?_toChar]; rfl)

theorem identAt_of_getElem? (h : text[col]? = some c) : identAt text col = isIdentChar c := by
  unfold identAt
  rw [h, Option.any_some]

/-- A word starts where an identifier character has none in front of it. -/
theorem isWordOf_take_drop (hident : identAt text first = true)
    (hbefore : ∀ d, (text.take first).getLast? = some d → isIdentChar d = false) :
    IsWordOf (text.take first) ((text.drop first).takeWhile isIdentChar)
      ((text.drop first).dropWhile isIdentChar) where
  ne_nil := by
    obtain ⟨d, hd, hdident⟩ := (Option.any_eq_true ..).mp hident
    obtain ⟨hfirst, rfl⟩ := List.getElem?_eq_some_iff.mp hd
    rw [List.drop_eq_getElem_cons hfirst, List.takeWhile_cons_of_pos hdident]
    exact List.cons_ne_nil _ _
  ident := List.all_eq_true.mp List.all_takeWhile
  before_ident := hbefore
  behind_ident := by
    intro d hd
    have hnot := List.head?_dropWhile_not isIdentChar (text.drop first)
    rw [hd] at hnot
    exact hnot

namespace Symbol

/-- The symbol whose name is the longest identifier that starts at `p`. -/
def startingAt (doc : Document) (kind : SymbolKind) (p : Position) : Symbol :=
  ⟨doc.wordFrom p, kind, ⟨p, ⟨p.line, p.character + (doc.wordFrom p).length⟩⟩⟩

theorem classify?_of_firstToken (hline : doc.line? n = some text)
    (h : FirstToken text kind first) :
    classify? doc ⟨n, first⟩ = some (startingAt doc kind ⟨n, first⟩) := by
  have hident : identAt text first = true := by
    cases h with
    | ruleName hstart hident => rw [identAt_of_getElem? hstart.char, hident]
    | behindSigil hstart hident => exact hident
  have hlength : (text.take first).length = first := by
    obtain ⟨d, hd, -⟩ := (Option.any_eq_true ..).mp hident
    rw [List.length_take]
    exact Nat.min_eq_left (Nat.le_of_lt (List.getElem?_eq_some_iff.mp hd).1)
  have hbefore : (∀ d, (text.take first).getLast? = some d → isIdentChar d = false) ∧
      SymbolKind.behind (text.take first).getLast? = kind := by
    cases h with
    | ruleName hstart hname =>
      have hblank : ∀ d, (text.take first).getLast? = some d → Text.isBlank d = true :=
        fun d hd => hstart.blank d (List.mem_of_getLast? hd)
      refine ⟨fun d hd => not_isIdentChar_of_isBlank (hblank d hd), ?_⟩
      rw [SymbolKind.behind_eq_ruleName_iff]
      intro d hd hsigil
      simp only [List.mem_cons, List.not_mem_nil, or_false] at hsigil
      rcases hsigil with rfl | rfl | rfl | rfl <;> exact absurd (hblank _ hd) (by decide)
    | @behindSigil col sigil hstart hname =>
      have hlast : (text.take (col + 1)).getLast? = some sigil.toChar := by
        rw [List.getLast?_take, if_neg (Nat.succ_ne_zero col), Nat.add_sub_cancel, hstart.char,
          Option.some_or]
      rw [hlast]
      refine ⟨fun d hd => ?_, SymbolKind.behind_eq_variable_iff.mpr rfl⟩
      cases hd
      exact sigil.not_isIdentChar_toChar
  have hcut : doc.line? n = some (text.take first ++ (text.drop first).takeWhile isIdentChar ++
      (text.drop first).dropWhile isIdentChar) := by
    rw [List.append_assoc, List.takeWhile_append_dropWhile, List.take_append_drop, hline]
  have hsymbol := (isWordOf_take_drop hident hbefore.1).classify?_eq hcut (Nat.zero_le _)
  rw [hlength, hbefore.2] at hsymbol
  rw [startingAt, Document.wordFrom_of_line? hline]
  exact hsymbol

end Symbol

namespace Location

/-! ## 3. The position that is meant -/

theorem indentColumn_of_line? (hline : doc.line? n = some text) :
    indentColumn doc n =
      if (text[Document.indent text]?.bind Sigil.ofChar?).isSome then Document.indent text + 2
      else Document.indent text + 1 := by
  simp only [indentColumn, Document.indent?, hline, Option.map_some, Document.char?,
    Option.bind_eq_bind, Option.bind_some]
  cases text[Document.indent text]?.bind Sigil.ofChar? <;> rfl

theorem indentColumn_of_firstToken (hline : doc.line? n = some text)
    (h : FirstToken text kind first) : indentColumn doc n = first + 1 := by
  rw [indentColumn_of_line? hline]
  cases h with
  | @ruleName col c hstart hident =>
    have hnone : Sigil.ofChar? c = none := by
      rw [← Option.not_isSome_iff_eq_none]
      intro hsigil
      rw [Sigil.not_isIdentChar hsigil] at hident
      cases hident
    rw [hstart.indent_eq, hstart.char, Option.bind_some, hnone]
    rfl
  | behindSigil hstart hident =>
    rw [hstart.indent_eq, hstart.char, Option.bind_some, Sigil.ofChar?_toChar]
    rfl

/-- The position touches no word but that of the first token: in front of it stands a blank or a
sigil. -/
theorem exists_firstToken_of_touchesWord (hline : doc.line? n = some text)
    (h : Symbol.TouchesWord text (indentColumn doc n - 1)) :
    ∃ kind first, FirstToken text kind first := by
  rw [indentColumn_of_line? hline] at h
  cases hsigil : text[Document.indent text]?.bind Sigil.ofChar? with
  | some sigil =>
    obtain ⟨c, hc, hchar⟩ := Option.bind_eq_some_iff.mp hsigil
    rw [Sigil.ofChar?_eq_some_iff] at hchar
    subst hchar
    rw [hsigil, Option.isSome_some, if_pos rfl] at h
    change Symbol.TouchesWord text (Document.indent text + 1) at h
    rcases h with hat | ⟨i, hi, hbefore⟩
    · exact ⟨_, _, .behindSigil (startsWith_of_indent hc) hat⟩
    · have hi : i = Document.indent text := by omega
      rw [hi, identAt_of_getElem? hc, Sigil.not_isIdentChar_toChar] at hbefore
      cases hbefore
  | none =>
    rw [hsigil, Option.isSome_none, if_neg Bool.false_ne_true] at h
    change Symbol.TouchesWord text (Document.indent text) at h
    rcases h with hat | ⟨i, hi, hbefore⟩
    · obtain ⟨c, hc, hident⟩ := (Option.any_eq_true ..).mp hat
      exact ⟨_, _, .ruleName (startsWith_of_indent hc) hident⟩
    · obtain ⟨c, hc, hident⟩ := (Option.any_eq_true ..).mp hbefore
      have hmem : c ∈ text.take (Document.indent text) := by
        apply List.mem_of_getElem? (i := i)
        rw [List.getElem?_take_of_lt (by omega), hc]
      have hblank := (Document.isIndent_indent text).1 c hmem
      rw [not_isIdentChar_of_isBlank hblank] at hident
      cases hident

/-- A location in a file that names line `n` from 0 on, and no column, means the first token of that
line.  At the position that it stands for there is the symbol of this token, or none if the line
does not start with one or does not exist. -/
theorem classify?_of_location {w : World} {p : Path} {text : String}
    (hread : w.read p = .ok text.toUTF8) (n : Nat) :
    ∃ l, withColumn ⟨p, n + 1, none⟩ w = .ok l ∧
      (∀ input q, ofString input = .ok ⟨q, n + 1, none⟩ →
        toAbsolute ⟨q, n + 1, none⟩ w = .ok ⟨p, n + 1, none⟩ → resolve w input = .ok l) ∧
      (∀ line kind first, (Document.ofString text).line? n = some line →
        FirstToken line kind first →
          Symbol.classify? (.ofString text) l.position =
            some (.startingAt (.ofString text) kind ⟨n, first⟩)) ∧
      ((∀ line kind first, (Document.ofString text).line? n = some line →
        ¬ FirstToken line kind first) →
          Symbol.classify? (.ofString text) l.position = none) := by
  have hcolumn : withColumn ⟨p, n + 1, none⟩ w =
      .ok ⟨p, n + 1, some (indentColumn (.ofString text) n)⟩ := by
    have hvalid : text.toUTF8.IsValidUTF8 :=
      Text.Utf8.isSome_decode?_iff.mp (by rw [Text.Utf8.decode?_toUTF8]; rfl)
    have hdecode := Text.Utf8.decodeLossy_of_decode? (Text.Utf8.decode?_toUTF8 text)
    rw [withColumn, World.readText_of_isValidUTF8 hread hvalid, hdecode]
    rfl
  refine ⟨_, hcolumn, ?_, ?_, ?_⟩
  · intro input q hinput hfile
    unfold resolve
    rw [hinput]
    show (toAbsolute ⟨q, n + 1, none⟩ w >>= fun l => l.withColumn w) = _
    rw [hfile]
    exact hcolumn
  · intro line kind first hline htoken
    show Symbol.classify? _ ⟨n, indentColumn (.ofString text) n - 1⟩ = _
    rw [indentColumn_of_firstToken hline htoken]
    exact Symbol.classify?_of_firstToken hline htoken
  · intro hnone
    apply Option.eq_none_iff_forall_ne_some.mpr
    intro symbol hsymbol
    obtain ⟨line, first, stop, hline, hfirst, hstop, h⟩ := Symbol.isWordSymbol_of_classify? hsymbol
    have htouch := Symbol.touchesWord_of_wordAt h.word hfirst hstop
    obtain ⟨kind, first, htoken⟩ := exists_firstToken_of_touchesWord hline htouch
    exact hnone line kind first hline htoken

/-- A world with one file, whose lines start in different ways. -/
def indented : World where
  files := FileTree.empty.insert ["a.yara"] (.file "\t $a1 = x\n  $ b\n".toUTF8 false)
  cwd := []
  env := []
  home := ⟨"/"⟩
  programs := []

theorem classify?_of_location_indented :
    (∃ l, resolve indented "a.yara:1" = .ok l ∧
      Symbol.classify? (.ofString "\t $a1 = x\n  $ b\n") l.position =
        some ⟨['a', '1'], .variable .dollar, ⟨⟨0, 3⟩, ⟨0, 5⟩⟩⟩) ∧
    ∃ l, resolve indented "a.yara:2" = .ok l ∧
      Symbol.classify? (.ofString "\t $a1 = x\n  $ b\n") l.position = none := by
  have hread : indented.read ⟨"/a.yara"⟩ = .ok "\t $a1 = x\n  $ b\n".toUTF8 := by rfl
  refine ⟨?_, ?_⟩
  · obtain ⟨l, -, hresolve, htoken, -⟩ := classify?_of_location hread 0
    refine ⟨l, hresolve "a.yara:1" ⟨"a.yara"⟩ (by decide +kernel) (by decide +kernel), ?_⟩
    rw [htoken "\t $a1 = x".toList (.variable .dollar) 3 (by decide +kernel)
      (.behindSigil ⟨List.all_eq_true.mp (by decide), by decide, by decide⟩ (by decide))]
    decide +kernel
  · obtain ⟨l, -, hresolve, -, hnone⟩ := classify?_of_location hread 1
    refine ⟨l, hresolve "a.yara:2" ⟨"a.yara"⟩ (by decide +kernel) (by decide +kernel), hnone ?_⟩
    intro line kind first hline htoken
    have heq : (Document.ofString "\t $a1 = x\n  $ b\n").line? 1 = some "  $ b".toList := by
      decide +kernel
    rw [heq] at hline
    cases hline
    -- a sigil stands alone behind the indentation
    cases htoken with
    | ruleName hstart hident =>
      have hcol := hstart.indent_eq
      have hchar := hstart.char
      subst hcol
      cases hchar
      cases hident
    | @behindSigil col sigil hstart hident =>
      have hcol := hstart.indent_eq
      subst hcol
      cases hident

end Location

end RuleLens
