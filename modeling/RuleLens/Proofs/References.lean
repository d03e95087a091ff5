import RuleLens.Proofs.Classify
import RuleLens.Proofs.Scope
import RuleLens.Proofs.Uses

/-!
# References of string identifiers

A plain name is looked for in the whole document, a wildcard in the block of its line.  Both lists
are in the order of the document and hold a use unless its sigil belongs to a use that they hold.
A name that is too long for its automaton is looked for nowhere.
-/

namespace RuleLens.Symbol

open Query

variable {doc : Document} {keep : Nat → Bool} {accept : Line → Bool} {p : Position}
  {symbol : Symbol} {sigil : Sigil}

/-! ## 1. Uses in a document -/

/-- The uses of accepted names on one line, if `keep` takes it. -/
def lineUses (keep : Nat → Bool) (accept : Line → Bool) (text : Line) (n : Nat) : List Position :=
  if keep n then (uses accept text).map (⟨n, ·⟩) else []

/-- The uses of accepted names on the lines that `keep` takes. -/
def usesWithin (keep : Nat → Bool) (accept : Line → Bool) (doc : Document) : List Position :=
  doc.numbered.flatMap fun x => lineUses keep accept x.1 x.2

theorem mem_lineUses {text : Line} {n : Nat} {q : Position} :
    q ∈ lineUses keep accept text n ↔
      keep n = true ∧ q.line = n ∧ q.character ∈ uses accept text := by
  unfold lineUses
  split
  · rename_i hkeep
    rw [List.mem_map]
    constructor
    · intro h
      rcases h with ⟨c, hc, rfl⟩
      exact ⟨hkeep, rfl, hc⟩
    · intro h
      rcases h with ⟨-, rfl, hc⟩
      exact ⟨q.character, hc, rfl⟩
  · rename_i hkeep
    simp [hkeep]

theorem mem_usesWithin {q : Position} :
    q ∈ usesWithin keep accept doc ↔
      keep q.line = true ∧
        ∃ text, doc.line? q.line = some text ∧ q.character ∈ uses accept text := by
  unfold usesWithin
  rw [List.mem_flatMap]
  constructor
  · intro h
    rcases h with ⟨⟨text, n⟩, hx, hq⟩
    rcases mem_lineUses.mp hq with ⟨hkeep, rfl, hc⟩
    exact ⟨hkeep, text, Document.mem_numbered.mp hx, hc⟩
  · intro h
    rcases h with ⟨hkeep, text, hline, hc⟩
    exact ⟨(text, q.line), Document.mem_numbered.mpr hline, mem_lineUses.mpr ⟨hkeep, rfl, hc⟩⟩

theorem pairwise_usesWithin (keep : Nat → Bool) (accept : Line → Bool) (doc : Document) :
    (usesWithin keep accept doc).Pairwise (· < ·) := by
  apply Document.pairwise_flatMap_numbered
  · intro text n q hq
    exact (mem_lineUses.mp hq).2.1
  · intro text n
    unfold lineUses
    split
    · rw [List.pairwise_map]
      exact (pairwise_uses accept text).imp fun hlt => .inr ⟨rfl, hlt⟩
    · exact .nil

theorem exists_line?_of_sigilBefore {q : Position} (h : doc.SigilBefore q) :
    ∃ text, doc.line? q.line = some text ∧ q.character ≤ text.length := by
  rcases h with ⟨c, -, hc⟩
  rcases q with ⟨n, col⟩
  cases col with
  | zero => cases hc
  | succ i =>
    rcases Option.bind_eq_some_iff.mp hc with ⟨text, hline, htext⟩
    have hlt := (List.getElem?_eq_some_iff.mp htext).1
    exact ⟨text, hline, hlt⟩

theorem useAt_iff {n : Nat} {text : Line} (hline : doc.line? n = some text) (c : Nat) :
    UseAt accept text c ↔ doc.SigilBefore ⟨n, c⟩ ∧ accept (doc.wordFrom ⟨n, c⟩) = true := by
  cases c with
  | zero =>
    refine ⟨False.elim, ?_⟩
    intro h
    rcases h with ⟨⟨c, -, hc⟩, -⟩
    cases hc
  | succ i =>
    unfold UseAt Document.SigilBefore
    rw [Document.wordFrom_of_line? hline, Document.charBefore?_of_line? hline]
    refine and_congr ?_ Iff.rfl
    constructor
    · intro h
      rcases h with ⟨c, hc, hsigil⟩
      exact ⟨c, (Sigil.isSome_ofChar?_iff c).mp hsigil, hc⟩
    · intro h
      rcases h with ⟨c, hsigil, hc⟩
      exact ⟨c, hc, (Sigil.isSome_ofChar?_iff c).mpr hsigil⟩

/-- The uses that are found in a document, by what stands around their positions. -/
theorem mem_usesWithin_iff {q : Position} :
    q ∈ usesWithin keep accept doc ↔
      keep q.line = true ∧ doc.SigilBefore q ∧ accept (doc.wordFrom q) = true ∧
        ∀ c, c + (doc.wordFrom ⟨q.line, c⟩).length + 1 = q.character →
          ⟨q.line, c⟩ ∉ usesWithin keep accept doc := by
  rcases q with ⟨n, col⟩
  constructor
  · intro h
    rcases mem_usesWithin.mp h with ⟨hkeep, text, hline, hcol⟩
    rcases (mem_uses_iff text col).mp hcol with ⟨huse, htaken⟩
    rcases (useAt_iff hline col).mp huse with ⟨hsigil, hword⟩
    refine ⟨hkeep, hsigil, hword, fun c hc hmem => htaken ?_⟩
    -- a use of the same line is one of the same text
    rcases mem_usesWithin.mp hmem with ⟨-, text', hline', hc'⟩
    rw [hline] at hline'
    cases hline'
    rw [Document.wordFrom_of_line? hline] at hc
    exact ⟨c, hc', hc⟩
  · intro h
    rcases h with ⟨hkeep, hsigil, hword, hfree⟩
    rcases exists_line?_of_sigilBefore hsigil with ⟨text, hline, -⟩
    refine mem_usesWithin.mpr ⟨hkeep, text, hline, (mem_uses_iff text col).mpr ⟨?_, ?_⟩⟩
    · exact (useAt_iff hline col).mpr ⟨hsigil, hword⟩
    · intro h
      rcases h with ⟨d, hd, heq⟩
      refine hfree d ?_ (mem_usesWithin.mpr ⟨hkeep, text, hline, hd⟩)
      rw [Document.wordFrom_of_line? hline]
      exact heq

/-- The uses of one name all have its length. -/
theorem mem_usesWithin_name_iff {name : Line} {q : Position} :
    q ∈ usesWithin (fun _ => true) (· == name) doc ↔
      doc.SigilBefore q ∧ doc.wordFrom q = name ∧
        ∀ c, c + name.length + 1 = q.character →
          ⟨q.line, c⟩ ∉ usesWithin (fun _ => true) (· == name) doc := by
  -- what is found in front of a use has the name for its word, so its length is known
  have hname : ∀ q ∈ usesWithin (fun _ => true) (· == name) doc, doc.wordFrom q = name := by
    intro q hq
    exact eq_of_beq (mem_usesWithin_iff.mp hq).2.2.1
  constructor
  · intro h
    rcases mem_usesWithin_iff.mp h with ⟨-, hsigil, -, hfree⟩
    refine ⟨hsigil, hname q h, fun c hc hmem => hfree c ?_ hmem⟩
    rw [hname _ hmem]
    exact hc
  · intro h
    rcases h with ⟨hsigil, hword, hfree⟩
    refine mem_usesWithin_iff.mpr ⟨rfl, hsigil, beq_iff_eq.mpr hword, fun c hc hmem => ?_⟩
    rw [hname _ hmem] at hc
    exact hfree c hc hmem

/-! ## 2. Results of the searches -/

theorem references_eq_variableReferences [Automaton.Engine]
    (hsymbol : classify? doc p = some symbol) (hkind : symbol.kind = .variable sigil)
    (hplain : symbol.isWildcard doc = false) :
    references doc p = variableReferences doc symbol.name := by
  simp only [references, hsymbol, hkind, hplain, Bool.false_eq_true, if_false]

theorem references_eq_wildcardReferences [Automaton.Engine]
    (hsymbol : classify? doc p = some symbol) (hkind : symbol.kind = .variable sigil)
    (hwild : symbol.isWildcard doc = true) :
    references doc p = wildcardReferences doc p.line symbol.name := by
  simp only [references, hsymbol, hkind, hwild, if_true]

theorem settles_variableReferences [Automaton.Engine] {name : Line}
    (hsize : searchSize name.length ≤ Automaton.limit) :
    Settles (variableReferences doc name) (.ok (usesWithin (fun _ => true) (· == name) doc)) := by
  have hreserve := settles_reserve (searchSize name.length)
  rw [if_pos hsize] at hreserve
  exact hreserve.bind (settles_allOf (lineUses (fun _ => true) (· == name)) doc.numbered)

theorem settles_variableReferences_error [Automaton.Engine] {name : Line}
    (hsize : Automaton.limit < searchSize name.length) :
    Settles (variableReferences doc name) (.error .searchTooLarge) := by
  have hreserve := settles_reserve (searchSize name.length)
  rw [if_neg (Nat.not_le.mpr hsize)] at hreserve
  exact hreserve.bind_error

theorem settles_wildcardReferences [Automaton.Engine] {n : Nat} {scope : RuleScope} {name : Line}
    (hscope : RuleScope.IsBlockOf doc n scope)
    (hsize : wildcardSize name.length ≤ Automaton.limit) :
    Settles (wildcardReferences doc n name)
      (.ok (usesWithin scope.contains (startsLonger name) doc)) := by
  have hreserve := settles_reserve (wildcardSize name.length)
  rw [if_pos hsize] at hreserve
  exact hscope.settles_locate?.bind
    (hreserve.bind (settles_allOf (lineUses scope.contains (startsLonger name)) doc.numbered))

theorem settles_wildcardReferences_error [Automaton.Engine] {n : Nat} {scope : RuleScope}
    {name : Line} (hscope : RuleScope.IsBlockOf doc n scope)
    (hsize : Automaton.limit < wildcardSize name.length) :
    Settles (wildcardReferences doc n name) (.error .searchTooLarge) := by
  have hreserve := settles_reserve (wildcardSize name.length)
  rw [if_neg (Nat.not_le.mpr hsize)] at hreserve
  exact hscope.settles_locate?.bind hreserve.bind_error

theorem settles_wildcardReferences_nil [Automaton.Engine] {n : Nat} {name : Line}
    (hnone : RuleScope.NoHeaderAbove doc n) : Settles (wildcardReferences doc n name) (.ok []) :=
  hnone.settles_locate?.bind (settles_pure [])

theorem startsLonger_eq_true_iff {name word : Line} :
    startsLonger name word = true ↔ name <+: word ∧ name.length < word.length := by
  unfold startsLonger
  rw [Bool.and_eq_true, List.isPrefixOf_iff_prefix, decide_eq_true_eq]

/-! ## 3. Names that are too long -/

/-- Every character of a name takes a state, and all that stands around the name takes 42. -/
theorem searchSize_eq [Automaton.Engine] (length : Nat) :
    searchSize length = (length + 42) * Automaton.stateSize + 100 := by
  simp only [searchSize, Automaton.loopSize, Automaton.setSize, Automaton.forkSize,
    Automaton.edgeSize, Automaton.linkSize]
  rw [Nat.add_mul]
  omega

theorem wildcardSize_eq [Automaton.Engine] (length : Nat) :
    wildcardSize length = (length + 45) * Automaton.stateSize + 140 := by
  simp only [wildcardSize, Automaton.loopSize, Automaton.setSize, Automaton.edgeSize,
    Automaton.linkSize]
  rw [searchSize_eq, Nat.add_mul, Nat.add_mul]
  omega

/-- Programs have room for plain names of up to 327634 characters. -/
theorem searchSize_le_limit_iff {length : Nat} :
    searchSize length ≤ Automaton.limit ↔ length ≤ 327634 := by
  rw [searchSize_eq]
  show (length + 42) * 32 + 100 ≤ 10 * 1024 * 1024 ↔ _
  omega

/-- Programs have room for wildcards of up to 327630 characters. -/
theorem wildcardSize_le_limit_iff {length : Nat} :
    wildcardSize length ≤ Automaton.limit ↔ length ≤ 327630 := by
  rw [wildcardSize_eq]
  show (length + 45) * 32 + 140 ≤ 10 * 1024 * 1024 ↔ _
  omega

/-- The name of `n` letters at column 1 of line `l`. -/
def longName (n l : Nat) : Symbol :=
  ⟨List.replicate n 'a', .variable .dollar, ⟨⟨l, 1⟩, ⟨l, 1 + n⟩⟩⟩

theorem length_longName (n l : Nat) : (longName n l).name.length = n :=
  List.length_replicate

theorem classify?_longName {n l : Nat} {behind : Line} (hn : 0 < n)
    (hbehind : ∀ c, behind.head? = some c → isIdentChar c = false)
    (hline : doc.line? l = some ('$' :: (List.replicate n 'a' ++ behind))) :
    classify? doc ⟨l, 1⟩ = some (longName n l) := by
  have hword : IsWordOf ['$'] (List.replicate n 'a') behind := by
    refine ⟨?_, ?_, ?_, hbehind⟩
    · rw [ne_eq, List.replicate_eq_nil_iff]
      omega
    · intro c hc
      rw [(List.mem_replicate.mp hc).2]
      decide
    · intro c hc
      cases hc
      decide
  have h := hword.classify?_eq hline (Nat.zero_le _)
  rw [List.length_replicate] at h
  exact h

theorem isWildcard_longName {n l : Nat} {behind : Line}
    (hline : doc.line? l = some ('$' :: (List.replicate n 'a' ++ behind))) :
    (longName n l).isWildcard doc = (behind.head? == some '*') := by
  have hchar : doc.char? ⟨l, 1 + n⟩ = behind.head? := by
    simp only [Document.char?, hline, Option.bind_eq_bind, Option.bind_some]
    rw [Nat.add_comm, List.getElem?_cons_succ, List.getElem?_append_right (by simp),
      List.length_replicate, Nat.sub_self, ← List.head?_eq_getElem?]
  unfold isWildcard longName
  rw [hchar]

/-- Alone in a document the name of `n` letters is a plain variable.  The line is never evaluated:
all that is used of it is that it is a run of one letter. -/
theorem classify?_longName_alone {n : Nat} (hn : 0 < n) :
    let doc : Document := ⟨['$' :: List.replicate n 'a']⟩
    classify? doc ⟨0, 1⟩ = some (longName n 0) ∧ (longName n 0).isWildcard doc = false := by
  intro doc
  have hline : doc.line? 0 = some ('$' :: (List.replicate n 'a' ++ [])) := by
    rw [List.append_nil]
    rfl
  exact ⟨classify?_longName hn (by simp) hline, isWildcard_longName hline⟩

theorem references_longName_alone {n : Nat} (hn : 327634 < n) :
    (references ⟨['$' :: List.replicate n 'a']⟩ ⟨0, 1⟩).answer .never = .error .searchTooLarge := by
  obtain ⟨hsymbol, hplain⟩ := classify?_longName_alone (n := n) (by omega)
  have hsize : Automaton.limit < searchSize (longName n 0).name.length := by
    rw [length_longName, ← Nat.not_le, searchSize_le_limit_iff]
    exact Nat.not_le.mpr hn
  rw [references_eq_variableReferences hsymbol rfl hplain]
  exact (settles_variableReferences_error hsize).answer_never

/-! ## 4. Plain names -/

/-- A plain name that is not too long is found at those positions, in their order, at which the
whole word is that name and a sigil stands in front which is not the character behind a name found
before.  Columns count characters: the bytes in front of a name lead back to its column. -/
theorem references_variable_iff [Automaton.Engine] (hsymbol : classify? doc p = some symbol)
    (hkind : symbol.kind = .variable sigil) (hplain : symbol.isWildcard doc = false) :
    (searchSize symbol.name.length ≤ Automaton.limit →
      ∃ found, (references doc p).answer .never = .ok found ∧ found.Pairwise (· < ·) ∧
        (∀ q, q ∈ found ↔ doc.SigilBefore q ∧ doc.wordFrom q = symbol.name ∧
          ∀ c, c + symbol.name.length + 1 = q.character → ⟨q.line, c⟩ ∉ found) ∧
        ∀ q ∈ found, ∃ text, doc.line? q.line = some text ∧
          Document.columnOfOffset text (Document.byteLength (text.take q.character)) =
            q.character) ∧
    (Automaton.limit < searchSize symbol.name.length →
      (references doc p).answer .never = .error .searchTooLarge) := by
  rw [references_eq_variableReferences hsymbol hkind hplain]
  refine ⟨fun hsize => ?_, fun hsize => (settles_variableReferences_error hsize).answer_never⟩
  refine ⟨_, (settles_variableReferences hsize).answer_never, pairwise_usesWithin _ _ _, ?_, ?_⟩
  · exact fun q => mem_usesWithin_name_iff
  · intro q hq
    rcases mem_usesWithin_iff.mp hq with ⟨-, hsigil, -⟩
    rcases exists_line?_of_sigilBefore hsigil with ⟨text, hline, hlen⟩
    exact ⟨text, hline, Document.columnOfOffset_take hlen⟩

/-- In a row of uses without gaps behind a character of two bytes. -/
theorem references_variable_iff_row :
    let doc := Document.ofString "é$ab$ab #abc @ab"
    ∃ found, (references doc ⟨0, 2⟩).answer .never = .ok found ∧ found.Pairwise (· < ·) ∧
      ∀ q, q ∈ found ↔ doc.SigilBefore q ∧ doc.wordFrom q = ['a', 'b'] ∧
        ∀ c, c + 2 + 1 = q.character → ⟨q.line, c⟩ ∉ found := by
  have h := (@references_variable_iff (Document.ofString "é$ab$ab #abc @ab") ⟨0, 2⟩
    ⟨['a', 'b'], .variable .dollar, ⟨⟨0, 2⟩, ⟨0, 4⟩⟩⟩ .dollar _ rfl rfl rfl).1 (by decide)
  rcases h with ⟨found, hanswer, hsorted, hmem, -⟩
  exact ⟨found, hanswer, hsorted, hmem⟩

/-- A name of half a million characters is a plain variable on a short line of a small document, but
no list of its references is answered. -/
theorem references_of_long_name :
    let doc : Document := ⟨['$' :: List.replicate 500000 'a']⟩
    doc.lineCount ≤ Text.max32 ∧ (∀ line ∈ doc.lines, line.length ≤ Text.max32) ∧
      (∃ symbol, classify? doc ⟨0, 1⟩ = some symbol ∧ symbol.kind = .variable .dollar ∧
        symbol.isWildcard doc = false) ∧
      ¬ ∃ found, (references doc ⟨0, 1⟩).answer .never = .ok found := by
  intro doc
  obtain ⟨hsymbol, hplain⟩ := classify?_longName_alone (n := 500000) (by decide)
  refine ⟨by decide, ?_, ⟨_, hsymbol, rfl, hplain⟩, ?_⟩
  · intro line hmem
    rw [List.mem_singleton.mp hmem, List.length_cons, List.length_replicate]
    decide
  · intro h
    rcases h with ⟨found, hfound⟩
    rw [references_longName_alone (by decide)] at hfound
    cases hfound

/-! ## 5. Wildcards -/

/-- A wildcard outside all rules is found nowhere.  Otherwise, unless its name is too long, the
longer names that it starts are found in the block of its line, in their order, where a sigil stands
in front of the whole word which is not the character behind a word found before. -/
theorem references_wildcard_iff [Automaton.Engine] (hsymbol : classify? doc p = some symbol)
    (hkind : symbol.kind = .variable sigil) (hwild : symbol.isWildcard doc = true) :
    match (RuleScope.locate doc p.line).answer .never with
    | .error e => e = .noEnclosingRule p.line ∧ (references doc p).answer .never = .ok []
    | .ok scope =>
      (wildcardSize symbol.name.length ≤ Automaton.limit →
        ∃ found, (references doc p).answer .never = .ok found ∧ found.Pairwise (· < ·) ∧
          ∀ q, q ∈ found ↔ scope.contains q.line = true ∧ doc.SigilBefore q ∧
            symbol.name <+: doc.wordFrom q ∧ symbol.name.length < (doc.wordFrom q).length ∧
            ∀ c, c + (doc.wordFrom ⟨q.line, c⟩).length + 1 = q.character →
              ⟨q.line, c⟩ ∉ found) ∧
      (Automaton.limit < wildcardSize symbol.name.length →
        (references doc p).answer .never = .error .searchTooLarge) := by
  rw [references_eq_wildcardReferences hsymbol hkind hwild]
  -- the block is looked for before the automaton is built, so without a block no size is checked
  rcases RuleScope.exists_isBlockOf_or_noHeaderAbove doc p.line with ⟨scope, hscope⟩ | hnone
  · rw [hscope.settles_locate.answer_never]
    refine ⟨fun hsize => ?_, fun hsize => ?_⟩
    · refine ⟨_, (settles_wildcardReferences hscope hsize).answer_never,
        pairwise_usesWithin _ _ _, fun q => ?_⟩
      rw [mem_usesWithin_iff, startsLonger_eq_true_iff, and_assoc]
    · exact (settles_wildcardReferences_error hscope hsize).answer_never
  · rw [hnone.settles_locate.answer_never]
    exact ⟨rfl, (settles_wildcardReferences_nil hnone).answer_never⟩

/-- Among names of a block that are longer, as long, and without a gap behind another. -/
theorem references_wildcard_iff_block :
    let doc := Document.ofString "rule r \x7b\n $ab $abc$abd #ab_ $ab*\n\x7d\n$abc"
    ∃ found, (references doc ⟨1, 20⟩).answer .never = .ok found ∧ found.Pairwise (· < ·) ∧
      ∀ q, q ∈ found ↔ (RuleScope.ofEnds 0 2).contains q.line = true ∧ doc.SigilBefore q ∧
        ['a', 'b'] <+: doc.wordFrom q ∧ 2 < (doc.wordFrom q).length ∧
        ∀ c, c + (doc.wordFrom ⟨q.line, c⟩).length + 1 = q.character → ⟨q.line, c⟩ ∉ found := by
  intro doc
  have h := @references_wildcard_iff doc ⟨1, 20⟩
    ⟨['a', 'b'], .variable .dollar, ⟨⟨1, 20⟩, ⟨1, 22⟩⟩⟩ .dollar _ rfl rfl rfl
  have hscope : (RuleScope.locate doc 1).answer .never = .ok (RuleScope.ofEnds 0 2) := rfl
  rw [hscope] at h
  exact h.1 (by decide)

/-- A wildcard of half a million characters stands inside a rule, but no list of its references is
answered. -/
theorem references_of_long_wildcard :
    let doc : Document := ⟨["rule r".toList, '$' :: (List.replicate 500000 'a' ++ ['*'])]⟩
    (∃ symbol, classify? doc ⟨1, 1⟩ = some symbol ∧ symbol.kind = .variable .dollar ∧
        symbol.isWildcard doc = true) ∧
      (∃ scope, (RuleScope.locate doc 1).answer .never = .ok scope) ∧
      ¬ ∃ found, (references doc ⟨1, 1⟩).answer .never = .ok found := by
  intro doc
  have hline : doc.line? 1 = some ('$' :: (List.replicate 500000 'a' ++ ['*'])) := rfl
  have hstar : ∀ c, ['*'].head? = some c → isIdentChar c = false := by
    intro c hc
    cases hc
    decide
  have hsymbol := classify?_longName (by decide) hstar hline
  have hwild : (longName 500000 1).isWildcard doc = true := isWildcard_longName hline
  have hsize : Automaton.limit < wildcardSize (longName 500000 1).name.length := by
    rw [length_longName, ← Nat.not_le, wildcardSize_le_limit_iff]
    decide
  have hheader : doc.headerAt 0 = true := rfl
  rcases RuleScope.exists_isBlockOf_of_headerAt hheader (Nat.zero_le (min 1 doc.lastLine)) with
    ⟨scope, hscope⟩
  refine ⟨⟨_, hsymbol, rfl, hwild⟩, ⟨scope, hscope.settles_locate.answer_never⟩, ?_⟩
  intro h
  rcases h with ⟨found, hfound⟩
  rw [references_eq_wildcardReferences hsymbol rfl hwild,
    (settles_wildcardReferences_error hscope hsize).answer_never] at hfound
  cases hfound

end RuleLens.Symbol
