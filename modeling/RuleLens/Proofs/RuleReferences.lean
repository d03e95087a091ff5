import RuleLens.Proofs.Agreement
import RuleLens.Proofs.Occurrence
import RuleLens.Proofs.Word

/-!
# References of rules

A rule is used wherever its name occurs, except where an occurrence that was taken before reaches
over the place.  The name consists of identifier characters, so nothing that was taken reaches into
a whole word from its left, and no whole word is ever lost.
-/

namespace RuleLens

namespace Text

variable {pat text rest : List Char} {c : Char} {skip : Nat} {found : List Nat}

/-! ## 1. Occurrences that do not overlap -/

/-- An occurrence in `found` that starts in front of column `col` reaches over it. -/
def Covered (pat : List Char) (found : List Nat) (col : Nat) : Prop :=
  ∃ d ∈ found, d < col ∧ col < d + pat.length

/-- The columns of `found` are those from column `skip` on at which the pattern occurs, less those
that an occurrence in `found` reaches over. -/
def Lists (pat : List Char) (skip : Nat) (text : List Char) (found : List Nat) : Prop :=
  ∀ col, col ∈ found ↔ skip ≤ col ∧ pat <+: text.drop col ∧ ¬ Covered pat found col

theorem not_covered_zero (pat : List Char) (found : List Nat) : ¬ Covered pat found 0 := by
  intro h
  obtain ⟨d, -, hlt, -⟩ := h
  exact Nat.not_lt_zero d hlt

theorem covered_cons (d : Nat) (found : List Nat) (col : Nat) :
    Covered pat (d :: found) col ↔ (d < col ∧ col < d + pat.length) ∨ Covered pat found col := by
  simp [Covered]

theorem covered_map_succ (found : List Nat) (col : Nat) :
    Covered pat (found.map (· + 1)) (col + 1) ↔ Covered pat found col := by
  unfold Covered
  constructor
  · intro h
    obtain ⟨d, hd, hlt, hover⟩ := h
    obtain ⟨e, he, rfl⟩ := List.mem_map.mp hd
    exact ⟨e, he, by omega, by omega⟩
  · intro h
    obtain ⟨d, hd, hlt, hover⟩ := h
    exact ⟨d + 1, List.mem_map.mpr ⟨d, hd, rfl⟩, by omega, by omega⟩

theorem occurrencesFrom_succ_col (skip col : Nat) (text : List Char) :
    occurrencesFrom pat skip (col + 1) text = (occurrencesFrom pat skip col text).map (· + 1) := by
  induction text generalizing skip col with
  | nil => simp [occurrencesFrom]
  | cons c rest ih =>
    cases skip with
    | succ skip =>
      simp only [occurrencesFrom]
      exact ih skip (col + 1)
    | zero =>
      simp only [occurrencesFrom]
      split
      · rw [ih, List.map_cons]
      · exact ih 0 (col + 1)

theorem occurrencesFrom_cons_skip (skip : Nat) (c : Char) (rest : List Char) :
    occurrencesFrom pat (skip + 1) 0 (c :: rest) =
      (occurrencesFrom pat skip 0 rest).map (· + 1) := by
  rw [occurrencesFrom, occurrencesFrom_succ_col]

theorem occurrencesFrom_cons_of_start (h : pat <+: c :: rest) :
    occurrencesFrom pat 0 0 (c :: rest) =
      0 :: (occurrencesFrom pat (pat.length - 1) 0 rest).map (· + 1) := by
  rw [occurrencesFrom, if_pos (List.isPrefixOf_iff_prefix.mpr h), occurrencesFrom_succ_col]

theorem occurrencesFrom_cons_of_no_start (h : ¬ pat <+: c :: rest) :
    occurrencesFrom pat 0 0 (c :: rest) = (occurrencesFrom pat 0 0 rest).map (· + 1) := by
  rw [← List.isPrefixOf_iff_prefix] at h
  rw [occurrencesFrom, if_neg h, occurrencesFrom_succ_col]

/-- What is listed behind the first character is listed in the rest, one column further left. -/
theorem Lists.succ_mem_map (h : Lists pat skip rest found) (c : Char) (col : Nat) :
    col + 1 ∈ found.map (· + 1) ↔
      skip ≤ col ∧ pat <+: (c :: rest).drop (col + 1) ∧
        ¬ Covered pat (found.map (· + 1)) (col + 1) := by
  have hmem : col + 1 ∈ found.map (· + 1) ↔ col ∈ found := by simp
  rw [hmem, covered_map_succ, List.drop_succ_cons, h col]

theorem Lists.cons_skip (h : Lists pat skip rest found) (c : Char) :
    Lists pat (skip + 1) (c :: rest) (found.map (· + 1)) := by
  intro col
  cases col with
  | zero => simp
  | succ col => rw [h.succ_mem_map c, Nat.succ_le_succ_iff]

/-- An occurrence at the start has the rest of its characters skipped. -/
theorem Lists.cons_start (h : Lists pat (pat.length - 1) rest found) (hpat : pat ≠ [])
    (hfirst : pat <+: c :: rest) : Lists pat 0 (c :: rest) (0 :: found.map (· + 1)) := by
  intro col
  have hpos : 0 < pat.length := List.length_pos_iff.mpr hpat
  rw [covered_cons]
  cases col with
  | zero =>
    have hfree := not_covered_zero pat (found.map (· + 1))
    simp [hfirst, hfree]
  | succ col =>
    -- the columns that are skipped are those that the first occurrence reaches over
    have hreach : pat.length - 1 ≤ col ↔ ¬ (0 < col + 1 ∧ col + 1 < 0 + pat.length) := by omega
    have hne : col + 1 ≠ 0 := Nat.succ_ne_zero col
    rw [List.mem_cons, or_iff_right hne, h.succ_mem_map c, hreach, not_or]
    constructor
    · intro hcol
      exact ⟨Nat.zero_le _, hcol.2.1, hcol.1, hcol.2.2⟩
    · intro hcol
      exact ⟨hcol.2.2.1, hcol.2.1, hcol.2.2.2⟩

theorem Lists.cons_no_start (h : Lists pat 0 rest found) (hfirst : ¬ pat <+: c :: rest) :
    Lists pat 0 (c :: rest) (found.map (· + 1)) := by
  intro col
  cases col with
  | zero => simp [hfirst]
  | succ col =>
    rw [h.succ_mem_map c]
    simp only [Nat.zero_le, true_and]

theorem lists_occurrencesFrom (hpat : pat ≠ []) (skip : Nat) (text : List Char) :
    Lists pat skip text (occurrencesFrom pat skip 0 text) := by
  -- along the text, for every number of characters that are still to be skipped
  induction text generalizing skip with
  | nil =>
    intro col
    simp [occurrencesFrom, hpat]
  | cons c rest ih =>
    cases skip with
    | succ skip =>
      rw [occurrencesFrom_cons_skip]
      exact (ih skip).cons_skip c
    | zero =>
      by_cases hfirst : pat <+: c :: rest
      · rw [occurrencesFrom_cons_of_start hfirst]
        exact (ih _).cons_start hpat hfirst
      · rw [occurrencesFrom_cons_of_no_start hfirst]
        exact (ih 0).cons_no_start hfirst

theorem pairwise_occurrencesFrom (skip : Nat) (text : List Char) :
    (occurrencesFrom pat skip 0 text).Pairwise (· < ·) := by
  induction text generalizing skip with
  | nil => simp [occurrencesFrom]
  | cons c rest ih =>
    have hrest : ∀ skip, ((occurrencesFrom pat skip 0 rest).map (· + 1)).Pairwise (· < ·) := by
      intro skip
      rw [List.pairwise_map]
      exact (ih skip).imp Nat.succ_lt_succ
    cases skip with
    | succ skip =>
      rw [occurrencesFrom_cons_skip]
      exact hrest skip
    | zero =>
      by_cases hfirst : pat <+: c :: rest
      · rw [occurrencesFrom_cons_of_start hfirst, List.pairwise_cons]
        refine ⟨fun col hcol => ?_, hrest _⟩
        obtain ⟨d, -, rfl⟩ := List.mem_map.mp hcol
        exact Nat.succ_pos d
      · rw [occurrencesFrom_cons_of_no_start hfirst]
        exact hrest 0

/-- An occurrence is listed unless one that is listed reaches over its start. -/
theorem mem_occurrences_iff (hpat : pat ≠ []) {col : Nat} :
    col ∈ occurrences pat text ↔
      pat <+: text.drop col ∧ ¬ Covered pat (occurrences pat text) col := by
  have h := lists_occurrencesFrom hpat 0 text col
  rw [and_iff_right (Nat.zero_le col)] at h
  exact h

theorem pairwise_occurrences (pat text : List Char) : (occurrences pat text).Pairwise (· < ·) :=
  pairwise_occurrencesFrom 0 text

-- the occurrence at column 1 overlaps the first one, and that at column 3 overlaps the second one
example : occurrences ['a', 'a'] "aaaaa".toList = [0, 2] := by decide

end Text

/-! ## 2. Whole words -/

/-- The name stands at a position with no identifier character next to it. -/
structure Document.WholeWordAt (doc : Document) (name : Line) (q : Position) : Prop where
  occurs : doc.OccursAt name q
  before : ∀ c, doc.charBefore? q = some c → isIdentChar c = false
  behind : ∀ c, doc.char? ⟨q.line, q.character + name.length⟩ = some c → isIdentChar c = false

variable {doc : Document} {name : Line} {p q : Position} {symbol : Symbol}

/-- No occurrence of the name reaches into a whole word from its left: the character in front of the
word would be one of the name. -/
theorem Document.WholeWordAt.add_length_le (h : doc.WholeWordAt name q)
    (hname : ∀ c ∈ name, isIdentChar c = true) {col : Nat} (hat : doc.OccursAt name ⟨q.line, col⟩)
    (hlt : col < q.character) : col + name.length ≤ q.character := by
  apply Nat.le_of_not_lt
  intro hover
  have hne : name ≠ [] := List.ne_nil_of_length_pos (by omega)
  obtain ⟨front, tail, hlength, hline⟩ := Document.exists_cut_of_occursAt hne hat
  change front.length = col at hlength
  -- it covers the column in front of the word
  have hident : identAt (front ++ name ++ tail) (q.character - 1) = true :=
    IsWordOf.identAt_word hname (by omega) (by omega)
  obtain ⟨c, hchar, hc⟩ := (Option.any_eq_true ..).mp hident
  have hbefore := Document.charBefore?_of_line? hline (q.character - 1)
  have hnext : q.character - 1 + 1 = q.character := by omega
  rw [hnext, hchar] at hbefore
  rw [h.before c hbefore] at hc
  cases hc

theorem IsWordOf.wholeWordAt {before behind : Line} {n : Nat} (h : IsWordOf before name behind)
    (hline : doc.line? n = some (before ++ name ++ behind)) :
    doc.WholeWordAt name ⟨n, before.length⟩ := by
  refine ⟨⟨_, hline, ?_⟩, ?_, ?_⟩
  · rw [List.append_assoc, List.drop_left]
    exact List.prefix_append name behind
  · rw [IsWordOf.charBefore?_eq hline]
    exact h.before_ident
  · rw [IsWordOf.char?_stop hline]
    exact h.behind_ident

namespace Symbol

theorem wholeWordAt_of_classify? (hsymbol : classify? doc p = some symbol) :
    doc.WholeWordAt symbol.name symbol.range.start := by
  obtain ⟨before, behind, -, hword, hline, -, -, -, hrange⟩ := IsWordOf.exists_of_classify? hsymbol
  rw [hrange]
  exact hword.wholeWordAt hline

/-! ## 3. Occurrences in a document -/

theorem mem_occurrencesIn_iff :
    q ∈ occurrencesIn doc name ↔
      ∃ text, doc.line? q.line = some text ∧ q.character ∈ Text.occurrences name text := by
  constructor
  · intro h
    obtain ⟨⟨text, n⟩, hx, hq⟩ := List.mem_flatMap.mp h
    obtain ⟨col, hcol, rfl⟩ := List.mem_map.mp hq
    exact ⟨text, Document.mem_numbered.mp hx, hcol⟩
  · intro h
    obtain ⟨text, hline, hcol⟩ := h
    exact mem_occurrencesIn hline hcol

theorem pairwise_occurrencesIn (doc : Document) (name : Line) :
    (occurrencesIn doc name).Pairwise (· < ·) := by
  refine @Document.pairwise_flatMap_numbered doc
    (fun text n => (Text.occurrences name text).map (⟨n, ·⟩)) ?_ ?_
  · intro text n q hq
    obtain ⟨col, -, rfl⟩ := List.mem_map.mp hq
    rfl
  · intro text n
    rw [List.pairwise_map]
    exact (Text.pairwise_occurrences name text).imp fun hlt => .inr ⟨rfl, hlt⟩

/-- The occurrences that are found in a document, by what stands at their positions. -/
theorem mem_occurrencesIn_iff_occursAt (hne : name ≠ []) :
    q ∈ occurrencesIn doc name ↔ doc.OccursAt name q ∧
      ∀ c, ⟨q.line, c⟩ ∈ occurrencesIn doc name →
        ¬ (c < q.character ∧ q.character < c + name.length) := by
  constructor
  · intro h
    obtain ⟨text, hline, hcol⟩ := mem_occurrencesIn_iff.mp h
    obtain ⟨hat, hfree⟩ := (Text.mem_occurrences_iff hne).mp hcol
    refine ⟨⟨text, hline, hat⟩, fun c hc hover => hfree ?_⟩
    -- what is found on the line is found in its text
    obtain ⟨text', hline', hc'⟩ := mem_occurrencesIn_iff.mp hc
    rw [hline] at hline'
    cases hline'
    exact ⟨c, hc', hover⟩
  · intro h
    obtain ⟨⟨text, hline, hat⟩, hfree⟩ := h
    refine mem_occurrencesIn_iff.mpr ⟨text, hline, (Text.mem_occurrences_iff hne).mpr ⟨hat, ?_⟩⟩
    intro hcovered
    obtain ⟨c, hc, hover⟩ := hcovered
    exact hfree c (mem_occurrencesIn hline hc) hover

theorem mem_occurrencesIn_of_wholeWordAt (hne : name ≠ [])
    (hname : ∀ c ∈ name, isIdentChar c = true) (h : doc.WholeWordAt name q) :
    q ∈ occurrencesIn doc name := by
  refine (mem_occurrencesIn_iff_occursAt hne).mpr ⟨h.occurs, fun c hc hover => ?_⟩
  have hat := ((mem_occurrencesIn_iff_occursAt hne).mp hc).1
  -- what starts further left has ended by then, so it does not reach over the word
  have hle := h.add_length_le hname hat hover.1
  omega

/-- The name of a rule is found at those positions, in their order, at which it occurs and over
which no occurrence found before reaches.  Every whole word is found, the one that was asked about
included.  Columns count characters: the bytes in front of a name lead back to its column. -/
theorem references_ruleName_iff [Automaton.Engine] (hsymbol : classify? doc p = some symbol)
    (hkind : symbol.kind = .ruleName) :
    ∃ found, (references doc p).answer .never = .ok found ∧ found.Pairwise (· < ·) ∧
      (∀ q, q ∈ found ↔ doc.OccursAt symbol.name q ∧
        ∀ c, ⟨q.line, c⟩ ∈ found →
          ¬ (c < q.character ∧ q.character < c + symbol.name.length)) ∧
      (∀ q, doc.WholeWordAt symbol.name q → q ∈ found) ∧
      doc.WholeWordAt symbol.name symbol.range.start ∧ symbol.range.start ∈ found ∧
      ∀ q ∈ found, ∃ text, doc.line? q.line = some text ∧
        Document.columnOfOffset text (Document.byteLength (text.take q.character)) =
          q.character := by
  have hne := name_ne_nil hsymbol
  have hname := isIdentChar_of_mem_name hsymbol
  have hword := wholeWordAt_of_classify? hsymbol
  rw [references_eq_ruleReferences hsymbol hkind]
  refine ⟨_, (settles_ruleReferences doc symbol.name).answer_never, pairwise_occurrencesIn doc _,
    ?_, ?_, hword, mem_occurrencesIn_of_wholeWordAt hne hname hword, ?_⟩
  · intro q
    exact mem_occurrencesIn_iff_occursAt hne
  · intro q hq
    exact mem_occurrencesIn_of_wholeWordAt hne hname hq
  · intro q hq
    have hat := ((mem_occurrencesIn_iff_occursAt hne).mp hq).1
    obtain ⟨front, tail, hlength, hline⟩ := Document.exists_cut_of_occursAt hne hat
    refine ⟨_, hline, Document.columnOfOffset_take ?_⟩
    simp only [List.length_append]
    omega

/-- A name that overlaps itself, among longer words and behind a character of two bytes. -/
theorem references_ruleName_iff_overlapping :
    let doc := Document.ofString "rule aa \x7b\nécaaa_aaaaa aa"
    ∃ found, (references doc ⟨0, 6⟩).answer .never = .ok found ∧ found.Pairwise (· < ·) ∧
      (∀ q, q ∈ found ↔ doc.OccursAt ['a', 'a'] q ∧
        ∀ c, ⟨q.line, c⟩ ∈ found → ¬ (c < q.character ∧ q.character < c + 2)) ∧
      ⟨0, 5⟩ ∈ found := by
  obtain ⟨found, hanswer, hsorted, hmem, -, -, hstart, -⟩ :=
    @references_ruleName_iff (Document.ofString "rule aa \x7b\nécaaa_aaaaa aa") ⟨0, 6⟩
      ⟨['a', 'a'], .ruleName, ⟨⟨0, 5⟩, ⟨0, 7⟩⟩⟩ _ rfl rfl
  exact ⟨found, hanswer, hsorted, hmem, hstart⟩

end Symbol

end RuleLens
