import RuleLens.Symbol.References
import RuleLens.Proofs.Document

/-!
# Uses on a line

Which columns a search for uses reports, said without the search: those of the accepted names behind
a sigil, less those whose sigil a reported use has taken for the character behind its name.
-/

namespace RuleLens

theorem Sigil.isSome_ofChar?_iff (c : Char) :
    (Sigil.ofChar? c).isSome = true ↔ c ∈ ['$', '#', '@', '!'] := by
  unfold Sigil.ofChar?
  split <;> simp_all

theorem Sigil.not_isIdentChar {c : Char} (h : (Sigil.ofChar? c).isSome = true) :
    isIdentChar c = false := by
  rw [Sigil.isSome_ofChar?_iff] at h
  simp only [List.mem_cons, List.not_mem_nil, or_false] at h
  rcases h with rfl | rfl | rfl | rfl <;> decide

namespace Symbol

variable {accept : Line → Bool} {text : Line}

/-! ## 1. What a use is -/

/-- The longest run of identifier characters that starts at column `col`. -/
def runAt (text : Line) (col : Nat) : Line :=
  (text.drop col).takeWhile isIdentChar

/-- A name that is accepted stands at the column, right behind a sigil. -/
def UseAt (accept : Line → Bool) (text : Line) : (col : Nat) → Prop
  | 0 => False
  | i + 1 => (∃ c, text[i]? = some c ∧ (Sigil.ofChar? c).isSome = true) ∧
      accept (runAt text (i + 1)) = true

/-- The character in front of column `col` is the one behind a name in `found`. -/
def Taken (text : Line) (found : List Nat) (col : Nat) : Prop :=
  ∃ d ∈ found, d + (runAt text d).length + 1 = col

theorem not_useAt_nil (col : Nat) : ¬ UseAt accept [] col := by
  cases col with
  | zero => exact id
  | succ i =>
    intro h
    rcases h with ⟨⟨c, hc, -⟩, -⟩
    simp at hc

theorem useAt_cons_one (c : Char) (rest : Line) :
    UseAt accept (c :: rest) 1 ↔
      ((Sigil.ofChar? c).isSome && accept (rest.takeWhile isIdentChar)) = true := by
  simp [UseAt, runAt]

theorem useAt_cons_succ (c : Char) (rest : Line) {col : Nat} (hcol : 0 < col) :
    UseAt accept (c :: rest) (col + 1) ↔ UseAt accept rest col := by
  cases col with
  | zero => omega
  | succ i => simp [UseAt, runAt]

/-- No sigil stands inside a run of identifier characters, so a use lies behind the run at the start
of its line. -/
theorem UseAt.length_run_lt {col : Nat} (h : UseAt accept text col) :
    (runAt text 0).length < col := by
  cases col with
  | zero => exact h.elim
  | succ i =>
    rcases h with ⟨⟨c, hc, hsigil⟩, -⟩
    refine Nat.lt_succ_of_le (Nat.le_of_not_lt fun hlt => ?_)
    obtain ⟨tail, htail⟩ : runAt text 0 <+: text := List.takeWhile_prefix _
    have hmem : c ∈ runAt text 0 := by
      rw [← htail, List.getElem?_append_left hlt] at hc
      exact List.mem_of_getElem? hc
    have hident : isIdentChar c = true := List.all_eq_true.mp List.all_takeWhile c hmem
    rw [Sigil.not_isIdentChar hsigil] at hident
    cases hident

theorem not_taken_zero (found : List Nat) : ¬ Taken text found 0 := by
  intro h
  rcases h with ⟨d, -, heq⟩
  omega

theorem taken_cons (d : Nat) (found : List Nat) (col : Nat) :
    Taken text (d :: found) col ↔ d + (runAt text d).length + 1 = col ∨ Taken text found col := by
  simp [Taken]

theorem taken_map_succ (c : Char) (rest : Line) (found : List Nat) (col : Nat) :
    Taken (c :: rest) (found.map (· + 1)) (col + 1) ↔ Taken rest found col := by
  unfold Taken
  constructor
  · intro h
    rcases h with ⟨d, hd, heq⟩
    rcases List.mem_map.mp hd with ⟨e, he, rfl⟩
    refine ⟨e, he, ?_⟩
    change e + 1 + (runAt rest e).length + 1 = col + 1 at heq
    omega
  · intro h
    rcases h with ⟨d, hd, heq⟩
    refine ⟨d + 1, List.mem_map.mpr ⟨d, hd, rfl⟩, ?_⟩
    change d + 1 + (runAt rest d).length + 1 = col + 1
    omega

/-! ## 2. Steps of the search -/

theorem usesFrom_succ_col (skip col : Nat) (text : Line) :
    usesFrom accept skip (col + 1) text = (usesFrom accept skip col text).map (· + 1) := by
  induction text generalizing skip col with
  | nil => simp [usesFrom]
  | cons c rest ih =>
    cases skip with
    | succ skip =>
      simp only [usesFrom]
      exact ih skip (col + 1)
    | zero =>
      simp only [usesFrom]
      split
      · rw [ih, List.map_cons]
      · exact ih 0 (col + 1)

theorem usesFrom_cons_skip (skip : Nat) (c : Char) (rest : Line) :
    usesFrom accept (skip + 1) 0 (c :: rest) = (usesFrom accept skip 0 rest).map (· + 1) := by
  rw [usesFrom, usesFrom_succ_col]

theorem usesFrom_cons_of_useAt {c : Char} {rest : Line} (h : UseAt accept (c :: rest) 1) :
    usesFrom accept 0 0 (c :: rest) =
      1 :: (usesFrom accept ((runAt rest 0).length + 1) 0 rest).map (· + 1) := by
  rw [useAt_cons_one] at h
  rw [usesFrom, if_pos h, usesFrom_succ_col]
  rfl

theorem usesFrom_cons_of_not_useAt {c : Char} {rest : Line} (h : ¬ UseAt accept (c :: rest) 1) :
    usesFrom accept 0 0 (c :: rest) = (usesFrom accept 0 0 rest).map (· + 1) := by
  rw [useAt_cons_one] at h
  rw [usesFrom, if_neg h, usesFrom_succ_col]

/-! ## 3. What the search reports -/

/-- The columns of `found` are those of the uses behind column `skip`, less those whose sigil is the
character behind a name of `found`. -/
def Reports (accept : Line → Bool) (skip : Nat) (text : Line) (found : List Nat) : Prop :=
  ∀ col, col ∈ found ↔ skip < col ∧ UseAt accept text col ∧ ¬ Taken text found col

variable {skip : Nat} {c : Char} {rest : Line} {found : List Nat}

/-- What is found behind the first character is found in the rest, one column further left. -/
theorem Reports.succ_mem_map (h : Reports accept skip rest found) (c : Char) (col : Nat) :
    col + 1 ∈ found.map (· + 1) ↔
      skip < col ∧ UseAt accept (c :: rest) (col + 1) ∧
        ¬ Taken (c :: rest) (found.map (· + 1)) (col + 1) := by
  have hmem : col + 1 ∈ found.map (· + 1) ↔ col ∈ found := by simp
  rw [hmem, taken_map_succ, h col]
  by_cases hcol : 0 < col
  · rw [useAt_cons_succ c rest hcol]
  · -- column 1 is behind the first character itself, which the rest knows nothing of
    have hskip : ¬ skip < col := by omega
    simp only [hskip, false_and]

theorem Reports.cons_skip (h : Reports accept skip rest found) (c : Char) :
    Reports accept (skip + 1) (c :: rest) (found.map (· + 1)) := by
  intro col
  cases col with
  | zero => simp
  | succ col => rw [h.succ_mem_map c, Nat.succ_lt_succ_iff]

/-- A use at column 1 has its name and the character behind it skipped. -/
theorem Reports.cons_use (h : Reports accept ((runAt rest 0).length + 1) rest found)
    (huse : UseAt accept (c :: rest) 1) :
    Reports accept 0 (c :: rest) (1 :: found.map (· + 1)) := by
  intro col
  cases col with
  | zero => simp
  | succ col =>
    rw [List.mem_cons, h.succ_mem_map c, taken_cons]
    change _ ↔ _ ∧ _ ∧ ¬ (1 + (runAt rest 0).length + 1 = col + 1 ∨ _)
    constructor
    · intro hcol
      rcases hcol with hfirst | ⟨hskip, huse', htaken⟩
      · have hzero : col = 0 := by omega
        subst hzero
        rw [taken_map_succ]
        refine ⟨Nat.succ_pos 0, huse, ?_⟩
        intro htaken
        rcases htaken with heq | htaken
        · omega
        · exact not_taken_zero _ htaken
      · refine ⟨Nat.succ_pos col, huse', ?_⟩
        intro htaken'
        rcases htaken' with heq | htaken'
        · omega
        · exact htaken htaken'
    · intro hcol
      rcases hcol with ⟨-, huse', htaken⟩
      by_cases hpos : 0 < col
      · -- a sigil behind the first name is the character right behind it or lies further on
        have hrun := ((useAt_cons_succ c rest hpos).mp huse').length_run_lt
        have hne : (runAt rest 0).length + 1 ≠ col := fun heq => htaken (.inl (by omega))
        exact .inr ⟨by omega, huse', fun htaken' => htaken (.inr htaken')⟩
      · exact .inl (by omega)

theorem Reports.cons_no_use (h : Reports accept 0 rest found)
    (huse : ¬ UseAt accept (c :: rest) 1) :
    Reports accept 0 (c :: rest) (found.map (· + 1)) := by
  intro col
  cases col with
  | zero => simp
  | succ col =>
    rw [h.succ_mem_map c]
    by_cases hpos : 0 < col
    · simp only [hpos, Nat.succ_pos]
    · have hzero : col = 0 := by omega
      subst hzero
      simp only [huse, Nat.lt_irrefl, false_and, and_false]

theorem reports_usesFrom (skip : Nat) (text : Line) :
    Reports accept skip text (usesFrom accept skip 0 text) := by
  -- along the text, for every number of characters that are still to be skipped
  induction text generalizing skip with
  | nil =>
    intro col
    have hnone : ¬ UseAt accept [] col := not_useAt_nil col
    simp [usesFrom, hnone]
  | cons c rest ih =>
    cases skip with
    | succ skip =>
      rw [usesFrom_cons_skip]
      exact (ih skip).cons_skip c
    | zero =>
      by_cases huse : UseAt accept (c :: rest) 1
      · rw [usesFrom_cons_of_useAt huse]
        exact (ih _).cons_use huse
      · rw [usesFrom_cons_of_not_useAt huse]
        exact (ih 0).cons_no_use huse

theorem pairwise_usesFrom (skip : Nat) (text : Line) :
    (usesFrom accept skip 0 text).Pairwise (· < ·) := by
  induction text generalizing skip with
  | nil => simp [usesFrom]
  | cons c rest ih =>
    have hrest : ∀ skip, ((usesFrom accept skip 0 rest).map (· + 1)).Pairwise (· < ·) := by
      intro skip
      rw [List.pairwise_map]
      exact (ih skip).imp Nat.succ_lt_succ
    cases skip with
    | succ skip =>
      rw [usesFrom_cons_skip]
      exact hrest skip
    | zero =>
      by_cases huse : UseAt accept (c :: rest) 1
      · rw [usesFrom_cons_of_useAt huse, List.pairwise_cons]
        refine ⟨?_, hrest _⟩
        -- whatever is found later was not skipped
        intro col hcol
        rcases List.mem_map.mp hcol with ⟨d, hd, rfl⟩
        have hskip := ((reports_usesFrom _ rest d).mp hd).1
        omega
      · rw [usesFrom_cons_of_not_useAt huse]
        exact hrest 0

/-- A use is reported unless its sigil belongs to a use that is reported. -/
theorem mem_uses_iff (text : Line) (col : Nat) :
    col ∈ uses accept text ↔ UseAt accept text col ∧ ¬ Taken text (uses accept text) col := by
  unfold uses
  rw [reports_usesFrom 0 text col]
  constructor
  · intro h
    rcases h with ⟨-, h⟩
    exact h
  · intro h
    refine ⟨?_, h⟩
    have hrun := h.1.length_run_lt
    omega

theorem pairwise_uses (accept : Line → Bool) (text : Line) :
    (uses accept text).Pairwise (· < ·) :=
  pairwise_usesFrom 0 text

-- every second name of a row without gaps
example : uses (· == ['a']) "$a$a$a$a$a".toList = [1, 5, 9] := by decide

end Symbol

end RuleLens
