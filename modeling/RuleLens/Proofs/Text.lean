import RuleLens.Text.Blank
import RuleLens.Text.Decimal
import RuleLens.Text.Digit
import RuleLens.Text.Search

/-!
# Texts and their parts

What the searches in a text find and what a text is split into, said without the loops: the first
occurrence of a pattern, the fields between separators, a text less the blanks around it, the number
that digits denote, and the words between blanks.
-/

namespace RuleLens.Text

variable {pat text : List Char}

/-! ## 1. Searching -/

theorem findFrom_eq_some_iff {col stop : Nat} :
    findFrom pat col text = some stop ↔
      ∃ i, stop = col + i ∧ i ≤ text.length ∧ pat <+: text.drop i ∧
        ∀ j < i, ¬ pat <+: text.drop j := by
  induction text generalizing col with
  | nil =>
    -- only the empty pattern occurs in the empty text
    by_cases hpat : pat = []
    · subst hpat
      rw [findFrom, if_pos List.isEmpty_nil]
      constructor
      · intro h
        cases h
        exact ⟨0, rfl, Nat.le_refl 0, List.nil_prefix, fun j hj => absurd hj (Nat.not_lt_zero j)⟩
      · intro h
        rcases h with ⟨i, rfl, hi, -⟩
        rw [Nat.eq_zero_of_le_zero hi, Nat.add_zero]
    · simp [findFrom, hpat]
  | cons c rest ih =>
    rw [findFrom]
    by_cases hpat : pat <+: c :: rest
    · rw [if_pos (List.isPrefixOf_iff_prefix.mpr hpat)]
      -- the pattern stands right here, so here is its first occurrence
      constructor
      · intro h
        cases h
        exact ⟨0, rfl, Nat.zero_le _, hpat, fun j hj => absurd hj (Nat.not_lt_zero j)⟩
      · intro h
        rcases h with ⟨i, rfl, -, -, hfirst⟩
        cases i with
        | zero => rfl
        | succ i => exact absurd hpat (hfirst 0 (Nat.succ_pos i))
    · rw [if_neg (by rwa [List.isPrefixOf_iff_prefix]), ih]
      -- columns of the rest are one further left
      constructor
      · intro h
        rcases h with ⟨i, rfl, hi, hat, hfirst⟩
        refine ⟨i + 1, by omega, by simpa using hi, hat, ?_⟩
        intro j hj
        cases j with
        | zero => exact hpat
        | succ j => exact hfirst j (by omega)
      · intro h
        rcases h with ⟨i, rfl, hi, hat, hfirst⟩
        cases i with
        | zero => exact absurd hat hpat
        | succ i =>
          refine ⟨i, by omega, by simpa using hi, hat, ?_⟩
          intro j hj
          exact hfirst (j + 1) (by omega)

/-- The first occurrence of a pattern has no other one in front of it. -/
theorem find?_eq_some_iff {col : Nat} :
    find? pat text = some col ↔
      col ≤ text.length ∧ pat <+: text.drop col ∧ ∀ j < col, ¬ pat <+: text.drop j := by
  unfold find?
  rw [findFrom_eq_some_iff]
  simp

theorem findFrom_eq_none_iff {col : Nat} : findFrom pat col text = none ↔ ¬ pat <:+: text := by
  induction text generalizing col with
  | nil => simp [findFrom, List.infix_nil]
  | cons c rest ih =>
    rw [findFrom, List.infix_cons_iff, ← List.isPrefixOf_iff_prefix]
    split
    · rename_i hpat
      simp [hpat]
    · rename_i hpat
      rw [ih]
      simp [hpat]

theorem find?_eq_none_iff : find? pat text = none ↔ ¬ pat <:+: text :=
  findFrom_eq_none_iff

theorem head?_occurrencesFrom (hpat : pat ≠ []) (col : Nat) :
    (occurrencesFrom pat 0 col text).head? = findFrom pat col text := by
  induction text generalizing col with
  | nil => simp [occurrencesFrom, findFrom, hpat]
  | cons c rest ih =>
    simp only [occurrencesFrom, findFrom]
    split
    · rfl
    · -- nothing is found yet, so nothing is skipped either
      exact ih (col + 1)

/-- Occurrences that do not overlap start with the first of all. -/
theorem head?_occurrences (hpat : pat ≠ []) : (occurrences pat text).head? = find? pat text :=
  head?_occurrencesFrom hpat 0

/-! ## 2. Pieces -/

section Pieces

variable {α : Type} {sep : α} {last : List α}

/-- Joined pieces are those in front of the last one, each with a separator behind it, and the
last one. -/
theorem intercalate_concat (ended : List (List α)) :
    [sep].intercalate (ended ++ [last]) = ended.flatMap (· ++ [sep]) ++ last := by
  induction ended with
  | nil => simp
  | cons piece ended ih =>
    obtain ⟨next, rest, hnext⟩ : ∃ next rest, ended ++ [last] = next :: rest :=
      List.exists_cons_of_ne_nil (by simp)
    rw [List.cons_append, hnext, List.intercalate_cons_cons, ← hnext, ih, List.flatMap_cons,
      List.append_assoc (piece ++ [sep])]

theorem intercalate_concat_of_ne_nil {front : List (List α)} (h : front ≠ []) :
    [sep].intercalate (front ++ [last]) = [sep].intercalate front ++ sep :: last := by
  rw [intercalate_concat, ← List.dropLast_concat_getLast h, intercalate_concat, List.flatMap_append]
  simp

theorem eq_of_intercalate_eq_nil {pieces : List (List α)} (h : [sep].intercalate pieces = []) :
    pieces = [] ∨ pieces = [[]] := by
  cases pieces with
  | nil => exact .inl rfl
  | cons piece rest =>
    cases rest with
    | nil =>
      rw [List.intercalate_singleton] at h
      exact .inr (by rw [h])
    | cons next rest => simp [List.intercalate_cons_cons] at h

theorem not_mem_of_mem_splitOn [BEq α] [LawfulBEq α] {xs piece : List α}
    (h : piece ∈ xs.splitOn sep) : sep ∉ piece := by
  induction xs generalizing piece with
  | nil =>
    rw [List.splitOn_nil, List.mem_singleton] at h
    rw [h]
    exact List.not_mem_nil
  | cons x xs ih =>
    obtain ⟨first, rest, hpieces⟩ := List.exists_cons_of_ne_nil (List.splitOn_ne_nil sep xs)
    rw [List.splitOn_cons_eq_if_modifyHead, hpieces] at h
    rw [hpieces] at ih
    split at h
    · rcases List.mem_cons.mp h with rfl | h
      · exact List.not_mem_nil
      · exact ih h
    · rename_i hx
      rcases List.mem_cons.mp h with rfl | h
      · intro hmem
        rcases List.mem_cons.mp hmem with rfl | hmem
        · exact hx (beq_self_eq_true sep)
        · exact ih List.mem_cons_self hmem
      · exact ih (List.mem_cons_of_mem first h)

theorem length_splitOn [BEq α] [LawfulBEq α] (sep : α) (xs : List α) :
    (xs.splitOn sep).length = xs.count sep + 1 := by
  induction xs with
  | nil => rw [List.splitOn_nil, List.count_nil, List.length_singleton]
  | cons x xs ih =>
    rw [List.splitOn_cons_eq_if_modifyHead, List.count_cons]
    split
    · rw [List.length_cons, ih]
    · rw [List.length_modifyHead, ih, Nat.add_zero]

/-- Pieces with a separator behind each but the last are split apart again. -/
theorem splitOn_flatMap [BEq α] [LawfulBEq α] {ended : List (List α)}
    (hended : ∀ piece ∈ ended, sep ∉ piece) (hlast : sep ∉ last) :
    (ended.flatMap (· ++ [sep]) ++ last).splitOn sep = ended ++ [last] := by
  rw [← intercalate_concat]
  apply List.splitOn_intercalate
  · intro piece hpiece
    rcases List.mem_append.mp hpiece with hpiece | hpiece
    · exact hended piece hpiece
    · rw [List.mem_singleton.mp hpiece]
      exact hlast
  · simp

/-- A run of characters of a class ends where the next character is none of it. -/
theorem takeWhile_append_of_head? {p : α → Bool} {body rest : List α}
    (hbody : ∀ c ∈ body, p c = true) (hrest : ∀ c, rest.head? = some c → p c = false) :
    (body ++ rest).takeWhile p = body := by
  rw [List.takeWhile_append_of_pos hbody]
  cases rest with
  | nil => rw [List.takeWhile_nil, List.append_nil]
  | cons c rest =>
    rw [List.takeWhile_cons_of_neg (by rw [hrest c rfl]; decide), List.append_nil]

end Pieces

/-! ## 3. Fields -/

/-- What separates the fields of a text. -/
def separator : List Char := [':', ' ']

/-- The fields of a text: joined by the separator they are the text, and none holds a separator.  So
the first one is what stands in front of the first separator, or all of the text. -/
structure FieldsOf (text : List Char) (fields : List (List Char)) : Prop where
  ne_nil : fields ≠ []
  joined : separator.intercalate fields = text
  separated : ∀ field ∈ fields, ¬ separator <:+: field

theorem not_separator_infix_cons {c : Char} {rest : List Char}
    (h : ¬ separator <:+: c :: rest) : ¬ separator <:+: rest :=
  fun hrest => h (List.infix_cons hrest)

theorem not_separator_infix_of_length_lt (h : text.length < 2) : ¬ separator <:+: text :=
  fun hwithin => Nat.not_le.mpr h hwithin.length_le

theorem not_separator_infix_of_not_mem (h : ' ' ∉ text) : ¬ separator <:+: text :=
  fun hwithin => h (hwithin.subset (by decide))

/-- A separator ends with a space, so none comes in with a text that has no space. -/
theorem not_separator_infix_append {s t : List Char} (hs : ¬ separator <:+: s) (ht : ' ' ∉ t) :
    ¬ separator <:+: s ++ t := by
  intro h
  rcases List.infix_append_iff.mp h with hleft | hright | ⟨left, right, heq, hleft, hright⟩
  · exact hs hleft
  · exact not_separator_infix_of_not_mem ht hright
  · cases right with
    | nil =>
      rw [List.append_nil] at heq
      exact hs (heq ▸ hleft.isInfix)
    | cons c right =>
      -- the separator lies over the border, and its last character is the space
      have hlast : (c :: right).getLast? = some ' ' := by
        have hboth := congrArg List.getLast? heq
        rw [List.getLast?_append, List.getLast?_cons, Option.some_or] at hboth
        rw [List.getLast?_cons, ← hboth]
        rfl
      exact ht (hright.subset (List.mem_of_getLast? hlast))

theorem fieldsFrom_cons {field : List Char} {c : Char} {rest : List Char}
    (h : ¬ separator <+: c :: rest) :
    fieldsFrom field (c :: rest) = fieldsFrom (c :: field) rest := by
  rw [fieldsFrom]
  intro tail hc htail
  exact h ⟨tail, by rw [hc, htail]; rfl⟩

theorem fieldsFrom_of_not_infix {field : List Char} (h : ¬ separator <:+: text) :
    fieldsFrom field text = [field.reverse ++ text] := by
  induction text generalizing field with
  | nil => simp [fieldsFrom]
  | cons c rest ih =>
    rw [fieldsFrom_cons (fun hc => h hc.isInfix), ih (not_separator_infix_cons h)]
    simp

theorem fieldsFrom_append {field first rest : List Char} (h : ¬ separator <:+: first) :
    fieldsFrom field (first ++ (separator ++ rest)) =
      (field.reverse ++ first) :: fieldsFrom [] rest := by
  induction first generalizing field with
  | nil => simp [separator, fieldsFrom]
  | cons c first ih =>
    have hc : ¬ separator <+: c :: (first ++ (separator ++ rest)) := by
      intro hstart
      cases first with
      | nil =>
        -- the separator behind the field starts with a colon, not with a space
        rcases hstart with ⟨tail, htail⟩
        simp [separator] at htail
      | cons d first =>
        rcases hstart with ⟨tail, htail⟩
        simp only [separator, List.cons_append, List.nil_append, List.cons.injEq] at htail
        rcases htail with ⟨rfl, rfl, -⟩
        exact h ⟨[], first, rfl⟩
    rw [List.cons_append, fieldsFrom_cons hc, ih (not_separator_infix_cons h)]
    simp

theorem fields_intercalate {fields : List (List Char)} (hne : fields ≠ [])
    (h : ∀ field ∈ fields, ¬ separator <:+: field) :
    Text.fields (separator.intercalate fields) = fields := by
  induction fields with
  | nil => exact absurd rfl hne
  | cons first rest ih =>
    cases rest with
    | nil =>
      rw [List.intercalate_singleton]
      exact fieldsFrom_of_not_infix (h first (by simp))
    | cons second rest =>
      rw [List.intercalate_cons_cons, List.append_assoc]
      unfold Text.fields
      rw [fieldsFrom_append (h first (by simp))]
      exact congrArg (first :: ·) (ih (by simp) fun field hfield => h field (by simp [hfield]))

theorem fieldsFrom_ne_nil (field text : List Char) : fieldsFrom field text ≠ [] := by
  fun_induction fieldsFrom field text <;> simp_all

theorem intercalate_fieldsFrom (field text : List Char) :
    separator.intercalate (fieldsFrom field text) = field.reverse ++ text := by
  fun_induction fieldsFrom field text with
  | case1 field => simp
  | case2 field rest ih =>
    obtain ⟨first, others, hfirst⟩ := List.exists_cons_of_ne_nil (fieldsFrom_ne_nil [] rest)
    rw [hfirst] at ih ⊢
    rw [List.intercalate_cons_cons, ih]
    simp [separator]
  | case3 field c rest _ ih => simpa using ih

/-- A field that grows by one character at a time gets no separator: its last character and the next
one of the text are looked at together. -/
theorem separated_fieldsFrom (field text : List Char)
    (h : ¬ separator <:+: field.reverse ++ text.take 1) :
    ∀ f ∈ fieldsFrom field text, ¬ separator <:+: f := by
  fun_induction fieldsFrom field text with
  | case1 field => simpa using h
  | case2 field rest ih =>
    intro f hf
    rcases List.mem_cons.mp hf with rfl | hf
    · exact fun hwithin => h (hwithin.trans (List.prefix_append _ _).isInfix)
    · refine ih (not_separator_infix_of_length_lt ?_) f hf
      rw [List.reverse_nil, List.nil_append, List.length_take]
      omega
  | case3 field c rest hc ih =>
    refine ih ?_
    intro hwithin
    rw [List.reverse_cons, List.append_assoc, List.singleton_append] at hwithin
    cases rest with
    | nil => exact h hwithin
    | cons d rest =>
      -- the last two characters are a separator, or it stands in front of the last one
      have hsplit : field.reverse ++ c :: (d :: rest).take 1 = field.reverse ++ [c] ++ [d] := by
        simp
      rw [hsplit, List.infix_concat_iff] at hwithin
      rcases hwithin with hend | hwithin
      · have hlast : separator <:+ [c, d] := by
          rw [List.append_assoc] at hend
          exact List.suffix_of_suffix_length_le hend (List.suffix_append _ _) (by simp [separator])
        have heq := hlast.eq_of_length (by simp [separator])
        simp only [separator, List.cons.injEq, and_true] at heq
        exact hc rest heq.1.symm (by rw [heq.2])
      · exact h hwithin

theorem fieldsOf_fields (text : List Char) : FieldsOf text (Text.fields text) := by
  refine ⟨fieldsFrom_ne_nil [] text, intercalate_fieldsFrom [] text, ?_⟩
  refine separated_fieldsFrom [] text (not_separator_infix_of_length_lt ?_)
  rw [List.reverse_nil, List.nil_append, List.length_take]
  omega

/-- A text has exactly one list of fields. -/
theorem fieldsOf_iff {fields : List (List Char)} :
    FieldsOf text fields ↔ Text.fields text = fields := by
  constructor
  · intro h
    rw [← h.joined]
    exact fields_intercalate h.ne_nil h.separated
  · intro h
    rw [← h]
    exact fieldsOf_fields text

/-! ## 4. Blanks around a text -/

/-- Trimming the start leaves all that stands behind a character that is not blank. -/
theorem trimStart_append_cons {s : List Char} {c : Char} {rest : List Char}
    (hc : isBlank c = false) : trimStart (s ++ c :: rest) = trimStart s ++ c :: rest := by
  unfold trimStart
  rw [List.dropWhile_append]
  split
  · -- `s` is blank, so `c` is the first character that is left
    rename_i hempty
    rw [List.isEmpty_iff.mp hempty, List.nil_append,
      List.dropWhile_cons_of_neg (by rw [hc]; decide)]
  · rfl

theorem trimEnd_of_getLast? {s : List Char} {c : Char} (hlast : s.getLast? = some c)
    (hc : isBlank c = false) : trimEnd s = s := by
  obtain ⟨front, rfl⟩ := List.getLast?_eq_some_iff.mp hlast
  unfold trimEnd
  rw [List.reverse_append, List.reverse_singleton, List.singleton_append,
    List.dropWhile_cons_of_neg (by rw [hc]; decide), List.reverse_cons, List.reverse_reverse]

theorem isBlank_head_trim {s : List Char} {c : Char} {rest : List Char}
    (h : trim s = c :: rest) : isBlank c = false := by
  have hfront : c :: rest <+: trimStart s := by
    rw [← h]
    exact List.reverse_suffix.mp (by simpa [trim, trimEnd] using List.dropWhile_suffix _)
  obtain ⟨behind, hbehind⟩ := hfront
  -- the end of the text is trimmed behind this character
  have hhead := List.head?_dropWhile_not isBlank s
  rwa [← trimStart, ← hbehind] at hhead

/-- A text that neither starts nor ends with a blank is trimmed. -/
theorem trim_of_not_isBlank {s : List Char} (hhead : ∀ c, s.head? = some c → isBlank c = false)
    (hlast : ∀ c, s.getLast? = some c → isBlank c = false) : trim s = s := by
  match s with
  | [] => rfl
  | c :: rest =>
    have hstart : trimStart (c :: rest) = c :: rest :=
      List.dropWhile_cons_of_neg (by rw [hhead c rfl]; decide)
    rw [trim, hstart]
    exact trimEnd_of_getLast? List.getLast?_cons (hlast _ List.getLast?_cons)

theorem not_infix_trimStart {s : List Char} (h : ¬ pat <:+: s) : ¬ pat <:+: trimStart s :=
  fun hwithin => h (hwithin.trans (List.dropWhile_suffix _).isInfix)

/-! ## 5. Numbers -/

/-- The text consists of ASCII digits and has the value `n`. -/
def Denotes (digits : List Char) (n : Nat) : Prop :=
  (∀ c ∈ digits, c.isDigit = true) ∧ Nat.ofDigitChars 10 digits 0 = n

theorem ofDigits?_eq_some_iff {digits : List Char} {n : Nat} :
    ofDigits? digits = some n ↔ digits ≠ [] ∧ Denotes digits n := by
  unfold ofDigits? Denotes
  by_cases hne : digits = []
  · simp [hne]
  · simp [hne]

/-- A number up to a bound may have zeros and one plus sign in front of its digits. -/
theorem readUpTo?_eq_some_iff {bound n : Nat} :
    readUpTo? bound text = some n ↔
      ∃ digits, (text = digits ∨ text = '+' :: digits) ∧ digits ≠ [] ∧ Denotes digits n ∧
        n ≤ bound := by
  have hread : ∀ digits : List Char,
      ((ofDigits? digits).bind fun m => if m ≤ bound then some m else none) = some n ↔
        digits ≠ [] ∧ Denotes digits n ∧ n ≤ bound := by
    intro digits
    simp only [Option.bind_eq_some_iff, ofDigits?_eq_some_iff, Option.ite_none_right_eq_some,
      Option.some.injEq]
    constructor
    · rintro ⟨m, ⟨hne, hm⟩, hle, rfl⟩
      exact ⟨hne, hm, hle⟩
    · rintro ⟨hne, hn, hle⟩
      exact ⟨n, ⟨hne, hn⟩, hle, rfl⟩
  unfold readUpTo?
  split
  · rename_i rest
    refine (hread rest).trans ⟨fun h => ⟨rest, .inr rfl, h⟩, ?_⟩
    rintro ⟨digits, htext, h⟩
    rcases htext with rfl | htext
    · -- the sign is no digit
      exact absurd (h.2.1.1 '+' List.mem_cons_self) (by decide)
    · cases htext
      exact h
  · rename_i hplain
    refine (hread text).trans ⟨fun h => ⟨text, .inl rfl, h⟩, ?_⟩
    rintro ⟨digits, rfl | rfl, h⟩
    · exact h
    · exact (hplain digits rfl).elim

theorem denotes_decimal (n : Nat) : Denotes (decimal n) n :=
  ⟨fun _ hc => Nat.isDigit_of_mem_toDigits (by decide) (by decide) hc,
    Nat.ofDigitChars_toDigits (by decide) (by decide)⟩

theorem toNat_of_isDigit {c : Char} (h : c.isDigit = true) :
    0x30 ≤ c.toNat ∧ c.toNat ≤ 0x39 :=
  Char.isDigit_iff_toNat.mp h

theorem isDigit_of_isDigit {c : Char} (h : c.isDigit = true) : isDigit c = true := by
  have hrange := toNat_of_isDigit h
  unfold isDigit
  rw [List.any_eq_true]
  refine ⟨0x30, by decide, ?_⟩
  simp only [Bool.and_eq_true, decide_eq_true_eq]
  omega

theorem isBlank_of_isDigit {c : Char} (h : c.isDigit = true) : isBlank c = false := by
  have hrange := toNat_of_isDigit h
  apply Bool.eq_false_iff.mpr
  intro hblank
  simp only [isBlank, Bool.or_eq_true, Bool.and_eq_true, decide_eq_true_eq, beq_iff_eq] at hblank
  omega

/-! ## 6. Words -/

/-- The text consists of blanks. -/
def IsGap (text : List Char) : Prop :=
  ∀ c ∈ text, isBlank c = true

/-- A word has characters, and none of them is blank. -/
def IsWord (word : List Char) : Prop :=
  word ≠ [] ∧ ∀ c ∈ word, isBlank c = false

/-- The text consists of these words, with blanks between any two of them and maybe around them. -/
inductive Spaced : List (List Char) → List Char → Prop
  | nil {gap : List Char} (hgap : IsGap gap) : Spaced [] gap
  | cons {gap word rest : List Char} {words : List (List Char)} (hgap : IsGap gap)
      (hword : IsWord word) (hend : ∀ c ∈ rest.head?, isBlank c = true)
      (hrest : Spaced words rest) : Spaced (word :: words) (gap ++ word ++ rest)

/-- A text has the words in front of a blank and those behind it. -/
theorem words_append_cons {c : Char} (hc : isBlank c = true) (front rest : List Char) :
    words (front ++ c :: rest) = words front ++ words rest := by
  unfold words
  rw [List.splitOnP_append_cons front rest hc, List.filter_append]

theorem words_cons {c : Char} (hc : isBlank c = true) (rest : List Char) :
    words (c :: rest) = words rest :=
  words_append_cons hc [] rest

theorem words_of_isWord {word : List Char} (h : IsWord word) : words word = [word] := by
  unfold words
  rw [List.splitOnP_eq_singleton h.2, List.filter_cons_of_pos (by simpa using h.1), List.filter_nil]

theorem words_append_of_isGap {gap : List Char} (h : IsGap gap) (rest : List Char) :
    words (gap ++ rest) = words rest := by
  induction gap with
  | nil => rfl
  | cons c gap ih =>
    rw [List.cons_append, words_cons (h c List.mem_cons_self)]
    exact ih fun d hd => h d (List.mem_cons_of_mem c hd)

theorem words_of_isGap {gap : List Char} (h : IsGap gap) : words gap = [] := by
  rw [← List.append_nil gap, words_append_of_isGap h]
  rfl

/-- A word ends at the end of the text or where a blank comes next. -/
theorem words_append_of_isWord {word rest : List Char} (hword : IsWord word)
    (hend : ∀ c ∈ rest.head?, isBlank c = true) : words (word ++ rest) = word :: words rest := by
  cases rest with
  | nil =>
    rw [List.append_nil, words_of_isWord hword]
    rfl
  | cons c rest =>
    have hc := hend c rfl
    rw [words_append_cons hc, words_of_isWord hword, words_cons hc, List.singleton_append]

theorem Spaced.words_eq {found : List (List Char)} (h : Spaced found text) :
    words text = found := by
  induction h with
  | nil hgap => exact words_of_isGap hgap
  | cons hgap hword hend hrest ih =>
    rw [List.append_assoc, words_append_of_isGap hgap, words_append_of_isWord hword hend, ih]

/-- A text that is not blank is cut behind its first word. -/
theorem exists_first_word (h : ¬ IsGap text) :
    ∃ gap word rest, text = gap ++ word ++ rest ∧ IsGap gap ∧ IsWord word ∧
      ∀ c ∈ rest.head?, isBlank c = true := by
  have hgap : IsGap (text.takeWhile isBlank) := fun c hc =>
    List.all_eq_true.mp List.all_takeWhile c hc
  have htext := List.takeWhile_append_dropWhile (p := isBlank) (l := text)
  have hhead := List.head?_dropWhile_not isBlank text
  generalize text.takeWhile isBlank = gap at *
  generalize text.dropWhile isBlank = body at *
  cases body with
  | nil =>
    rw [List.append_nil] at htext
    exact absurd (htext ▸ hgap) h
  | cons c body =>
    -- the first character behind the blanks starts the word
    refine ⟨gap, (c :: body).takeWhile (!isBlank ·), (c :: body).dropWhile (!isBlank ·), ?_, hgap,
      ⟨?_, ?_⟩, ?_⟩
    · rw [List.append_assoc, List.takeWhile_append_dropWhile, htext]
    · rw [List.takeWhile_cons_of_pos (by simpa using hhead)]
      exact List.cons_ne_nil _ _
    · intro d hd
      simpa using List.all_eq_true.mp List.all_takeWhile d hd
    · intro d hd
      have hend := List.head?_dropWhile_not (!isBlank ·) (c :: body)
      rw [hd] at hend
      simpa using hend

theorem spaced_words (text : List Char) : Spaced (words text) text := by
  by_cases hblank : IsGap text
  · rw [words_of_isGap hblank]
    exact .nil hblank
  · obtain ⟨gap, word, rest, rfl, hgap, hword, hend⟩ := exists_first_word hblank
    rw [List.append_assoc, words_append_of_isGap hgap, words_append_of_isWord hword hend,
      ← List.append_assoc]
    -- a word has characters, so what stands behind it is shorter than the text
    have hshorter : rest.length < (gap ++ word ++ rest).length := by
      have := List.length_pos_iff.mpr hword.1
      simp only [List.length_append]
      omega
    exact .cons hgap hword hend (spaced_words rest)
termination_by text.length

theorem Spaced.isWord_of_mem {found : List (List Char)} (h : Spaced found text) :
    ∀ word ∈ found, IsWord word := by
  induction h with
  | nil hgap => exact nofun
  | cons hgap hword hend hrest ih => exact List.forall_mem_cons.mpr ⟨hword, ih⟩

/-- Every text consists of its words and of no others. -/
theorem words_eq_iff {found : List (List Char)} : words text = found ↔ Spaced found text := by
  apply Iff.intro
  · rintro rfl
    exact spaced_words text
  · exact Spaced.words_eq

end RuleLens.Text
