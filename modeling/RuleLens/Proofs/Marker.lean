import RuleLens.Diagnostic.Line
import RuleLens.Proofs.Text

/-!
# Numbers in brackets

Which of the numbers in brackets of a text is found, said without the search: the leftmost one, if
there is any.  A number in brackets does not reach over another opening bracket, so in a text that
is put together from two at such a bracket the first part decides.
-/

namespace RuleLens.Diagnostic

variable {text before digits : List Char}

/-! ## 1. What stands where -/

/-- A number in brackets stands in the text behind `before`. -/
structure MarkerAt (text before digits : List Char) : Prop where
  ne_nil : digits ≠ []
  digit : ∀ c ∈ digits, Text.isDigit c = true
  stands : before ++ '(' :: (digits ++ [')']) <+: text

def HasMarker (text : List Char) : Prop :=
  ∃ before digits, MarkerAt text before digits

/-- The digits of the leftmost number in brackets. -/
def FirstMarker (text digits : List Char) : Prop :=
  ∃ before, MarkerAt text before digits ∧
    ∀ other otherDigits, MarkerAt text other otherDigits → before.length ≤ other.length

/-- The closing bracket is no digit, so the digits are a whole run. -/
theorem span_digits (tail : List Char) (h : ∀ c ∈ digits, Text.isDigit c = true) :
    (digits ++ ')' :: tail).takeWhile Text.isDigit = digits ∧
      (digits ++ ')' :: tail).dropWhile Text.isDigit = ')' :: tail := by
  have hclose : ¬ Text.isDigit ')' = true := by decide
  rw [List.takeWhile_append_of_pos h, List.dropWhile_append_of_pos h,
    List.takeWhile_cons_of_neg hclose, List.dropWhile_cons_of_neg hclose, List.append_nil]
  exact ⟨rfl, rfl⟩

theorem MarkerAt.eq_takeWhile (h : MarkerAt text before digits) :
    digits = (text.drop (before.length + 1)).takeWhile Text.isDigit := by
  rcases h.stands with ⟨tail, rfl⟩
  have hdrop : (before ++ '(' :: (digits ++ [')']) ++ tail).drop (before.length + 1) =
      digits ++ ')' :: tail := by simp
  rw [hdrop, (span_digits tail h.digit).1]

theorem FirstMarker.unique {others : List Char} (h : FirstMarker text digits)
    (h' : FirstMarker text others) : digits = others := by
  rcases h with ⟨before, hat, hfirst⟩
  rcases h' with ⟨before', hat', hfirst'⟩
  have hlength : before.length = before'.length :=
    Nat.le_antisymm (hfirst before' others hat') (hfirst' before digits hat)
  rw [hat.eq_takeWhile, hat'.eq_takeWhile, hlength]

theorem not_hasMarker_nil : ¬ HasMarker [] := by
  intro h
  rcases h with ⟨before, digits, hat⟩
  have hlength := hat.stands.length_le
  simp at hlength

theorem markerAt_cons_cons {c b : Char} :
    MarkerAt (c :: text) (b :: before) digits ↔ b = c ∧ MarkerAt text before digits := by
  constructor
  · intro h
    rcases List.cons_prefix_cons.mp h.stands with ⟨hb, hstands⟩
    exact ⟨hb, h.ne_nil, h.digit, hstands⟩
  · intro h
    rcases h with ⟨hb, hat⟩
    exact ⟨hat.ne_nil, hat.digit, List.cons_prefix_cons.mpr ⟨hb, hat.stands⟩⟩

/-! ## 2. Finding the leftmost one -/

theorem marker?_of_markerAt (h : MarkerAt text [] digits) : marker? text = some digits := by
  rcases h.stands with ⟨tail, rfl⟩
  have hspan := span_digits tail h.digit
  simp only [List.nil_append, List.cons_append, List.append_assoc, marker?]
  rw [hspan.1, hspan.2, if_pos]
  simp [h.ne_nil]

theorem markerAt_of_brackets (hne : text.takeWhile Text.isDigit ≠ [])
    (hclose : (text.dropWhile Text.isDigit).head? = some ')') :
    MarkerAt ('(' :: text) [] (text.takeWhile Text.isDigit) := by
  refine ⟨hne, fun c hc => List.all_eq_true.mp List.all_takeWhile c hc, ?_⟩
  rcases List.head?_eq_some_iff.mp hclose with ⟨tail, htail⟩
  refine ⟨tail, ?_⟩
  have hsplit : text.takeWhile Text.isDigit ++ text.dropWhile Text.isDigit = text :=
    List.takeWhile_append_dropWhile
  rw [htail] at hsplit
  simpa using hsplit

theorem marker?_cons_of_not {c : Char} (h : ∀ digits, ¬ MarkerAt (c :: text) [] digits) :
    marker? (c :: text) = marker? text := by
  by_cases hc : c = '('
  · subst hc
    rw [marker?, if_neg]
    intro hbrackets
    rw [Bool.and_eq_true, Bool.not_eq_true', List.isEmpty_eq_false_iff, decide_eq_true_eq]
      at hbrackets
    exact h _ (markerAt_of_brackets hbrackets.1 hbrackets.2)
  · rw [marker?]
    exact hc

/-- Looking for a number in brackets finds the leftmost one, or there is none. -/
theorem marker?_cases (text : List Char) :
    (∃ digits, FirstMarker text digits ∧ marker? text = some digits) ∨
      (¬ HasMarker text ∧ marker? text = none) := by
  induction text with
  | nil => exact .inr ⟨not_hasMarker_nil, rfl⟩
  | cons c rest ih =>
    by_cases hhere : ∃ digits, MarkerAt (c :: rest) [] digits
    · rcases hhere with ⟨digits, hat⟩
      exact .inl ⟨digits, ⟨[], hat, fun _ _ _ => Nat.zero_le _⟩, marker?_of_markerAt hat⟩
    · have hnone := not_exists.mp hhere
      rw [marker?_cons_of_not hnone]
      -- every number in brackets stands behind the first character, so it is one of the rest
      rcases ih with ⟨digits, ⟨before, hat, hfirst⟩, hfound⟩ | ⟨hrest, hfound⟩
      · refine .inl ⟨digits, ⟨c :: before, markerAt_cons_cons.mpr ⟨rfl, hat⟩, ?_⟩, hfound⟩
        intro other otherDigits hother
        cases other with
        | nil => exact absurd hother (hnone otherDigits)
        | cons b other =>
          exact Nat.succ_le_succ (hfirst other otherDigits (markerAt_cons_cons.mp hother).2)
      · refine .inr ⟨?_, hfound⟩
        intro h
        rcases h with ⟨other, otherDigits, hother⟩
        cases other with
        | nil => exact hnone otherDigits hother
        | cons b other => exact hrest ⟨other, otherDigits, (markerAt_cons_cons.mp hother).2⟩

theorem FirstMarker.hasMarker (h : FirstMarker text digits) : HasMarker text := by
  rcases h with ⟨before, hat, -⟩
  exact ⟨before, digits, hat⟩

theorem HasMarker.exists_firstMarker (h : HasMarker text) : ∃ digits, FirstMarker text digits := by
  rcases marker?_cases text with ⟨digits, hfirst, -⟩ | ⟨hnone, -⟩
  · exact ⟨digits, hfirst⟩
  · exact absurd h hnone

theorem marker?_eq_some_iff : marker? text = some digits ↔ FirstMarker text digits := by
  rcases marker?_cases text with ⟨found, hfirst, hfound⟩ | ⟨hnone, hfound⟩
  · rw [hfound, Option.some.injEq]
    constructor
    · rintro rfl
      exact hfirst
    · intro h
      exact hfirst.unique h
  · rw [hfound]
    constructor
    · intro h
      cases h
    · intro h
      exact absurd h.hasMarker hnone

theorem marker?_eq_none_iff : marker? text = none ↔ ¬ HasMarker text := by
  rcases marker?_cases text with ⟨found, hfirst, hfound⟩ | ⟨hnone, hfound⟩
  · simp [hfound, hfirst.hasMarker]
  · simp [hfound, hnone]

/-! ## 3. Texts put together -/

theorem marker?_trimStart (s : List Char) : marker? (Text.trimStart s) = marker? s := by
  unfold Text.trimStart
  induction s with
  | nil => rfl
  | cons c rest ih =>
    by_cases hc : Text.isBlank c = true
    · -- what is trimmed is no opening bracket, so no number starts there
      have hopen : c ≠ '(' := by
        rintro rfl
        exact absurd hc (by decide)
      rw [List.dropWhile_cons_of_pos hc, ih, marker?]
      exact hopen
    · rw [List.dropWhile_cons_of_neg hc]

/-- A number in brackets does not reach over an opening bracket. -/
theorem markerAt_append_nil {tail : List Char} {c : Char} :
    MarkerAt (c :: text ++ '(' :: tail) [] digits ↔ MarkerAt (c :: text) [] digits := by
  constructor
  · intro h
    refine ⟨h.ne_nil, h.digit, ?_⟩
    rcases List.cons_prefix_cons.mp h.stands with ⟨rfl, hstands⟩
    refine List.cons_prefix_cons.mpr ⟨rfl, ?_⟩
    by_cases hlength : (digits ++ [')']).length ≤ text.length
    · exact List.prefix_of_prefix_length_le hstands (List.prefix_append _ _) hlength
    · -- otherwise the bracket would be one of the digits
      exfalso
      have hopen : text ++ ['('] <+: digits ++ [')'] := by
        refine List.prefix_of_prefix_length_le ?_ hstands (by simp at hlength ⊢; omega)
        exact ⟨tail, by simp⟩
      have hmem : '(' ∈ digits ++ [')'] := hopen.subset (by simp)
      rcases List.mem_append.mp hmem with hdigit | hclose
      · exact absurd (h.digit _ hdigit) (by decide)
      · exact absurd hclose (by decide)
  · intro h
    exact ⟨h.ne_nil, h.digit, h.stands.trans (List.prefix_append _ _)⟩

theorem marker?_append (s tail : List Char) :
    marker? (s ++ '(' :: tail) = (marker? s).or (marker? ('(' :: tail)) := by
  induction s with
  | nil => rfl
  | cons c rest ih =>
    by_cases hhere : ∃ digits, MarkerAt (c :: rest) [] digits
    · rcases hhere with ⟨digits, hat⟩
      rw [marker?_of_markerAt hat, marker?_of_markerAt (markerAt_append_nil.mpr hat)]
      rfl
    · have hnone := not_exists.mp hhere
      rw [marker?_cons_of_not hnone, ← ih]
      -- the bracket that follows does not complete a number that starts at `c`
      exact marker?_cons_of_not fun digits hat => hnone digits (markerAt_append_nil.mp hat)

theorem markerAt_decimal (n : Nat) :
    MarkerAt ('(' :: (Text.decimal n ++ [')'])) [] (Text.decimal n) :=
  ⟨Nat.toDigits_ne_nil, fun c hc => Text.isDigit_of_isDigit ((Text.denotes_decimal n).1 c hc),
    List.prefix_rfl⟩

end RuleLens.Diagnostic
