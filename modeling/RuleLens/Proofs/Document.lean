import RuleLens.Document

/-!
# Lines, words and columns

How the numbered lines of a document relate to its lines, which line a search through them finds,
what stands from a position on, and that columns count characters however many bytes these have.
-/

namespace RuleLens.Document

variable {doc : Document} {text : Line}

/-! ## 1. Numbered lines -/

theorem getElem?_numbered (doc : Document) (n : Nat) :
    doc.numbered[n]? = (doc.line? n).map (·, n) := by
  unfold numbered line?
  rw [List.getElem?_zipIdx, Nat.zero_add]

theorem mem_numbered {x : Line × Nat} : x ∈ doc.numbered ↔ doc.line? x.2 = some x.1 :=
  List.mem_zipIdx_iff_getElem?

/-- The lines from line `first` on, up to but without line `stop`. -/
theorem mem_drop_take_numbered {x : Line × Nat} {first stop : Nat} :
    x ∈ (doc.numbered.take stop).drop first ↔
      first ≤ x.2 ∧ x.2 < stop ∧ doc.line? x.2 = some x.1 := by
  rw [List.mem_iff_getElem?]
  constructor
  · intro h
    rcases h with ⟨i, hi⟩
    rw [List.getElem?_drop, List.getElem?_take] at hi
    split at hi
    · rename_i hstop
      rw [getElem?_numbered] at hi
      rcases Option.map_eq_some_iff.mp hi with ⟨t, ht, rfl⟩
      exact ⟨Nat.le_add_right first i, hstop, ht⟩
    · cases hi
  · intro h
    rcases h with ⟨hfirst, hstop, hx⟩
    refine ⟨x.2 - first, ?_⟩
    have hindex : first + (x.2 - first) = x.2 := by omega
    rw [List.getElem?_drop, List.getElem?_take, hindex, if_pos hstop, getElem?_numbered, hx]
    rfl

theorem mem_take_numbered {x : Line × Nat} {stop : Nat} :
    x ∈ doc.numbered.take stop ↔ x.2 < stop ∧ doc.line? x.2 = some x.1 := by
  have h := @mem_drop_take_numbered doc x 0 stop
  rw [List.drop_zero] at h
  rw [h]
  exact and_iff_right (Nat.zero_le _)

theorem mem_drop_numbered {x : Line × Nat} {first : Nat} :
    x ∈ doc.numbered.drop first ↔ first ≤ x.2 ∧ doc.line? x.2 = some x.1 := by
  have h := @mem_drop_take_numbered doc x first doc.numbered.length
  rw [List.take_length] at h
  rw [h]
  -- a line that exists has a number below the length
  refine and_congr_right fun _ => and_iff_right_of_imp fun hx => ?_
  unfold line? at hx
  unfold numbered
  rw [List.length_zipIdx]
  exact (List.getElem?_eq_some_iff.mp hx).1

theorem pairwise_numbered (doc : Document) : doc.numbered.Pairwise (fun x y => x.2 < y.2) := by
  unfold numbered
  rw [List.pairwise_iff_getElem]
  intro i j hi hj hij
  rw [List.getElem_zipIdx, List.getElem_zipIdx]
  simpa using hij

/-- Positions that are listed line by line, in order on each line, are in the order of the
document. -/
theorem pairwise_flatMap_numbered {f : Line → Nat → List Position}
    (hline : ∀ text n, ∀ q ∈ f text n, q.line = n)
    (hsorted : ∀ text n, (f text n).Pairwise (· < ·)) :
    (doc.numbered.flatMap fun x => f x.1 x.2).Pairwise (· < ·) := by
  rw [List.pairwise_flatMap]
  constructor
  · intro x _
    exact hsorted x.1 x.2
  · refine doc.pairwise_numbered.imp ?_
    -- positions of different lines are in the order of the lines
    intro x y hlt q hq q' hq'
    left
    rw [hline _ _ q hq, hline _ _ q' hq']
    exact hlt

theorem le_lastLine_of_line? {n : Nat} (h : doc.line? n = some text) : n ≤ doc.lastLine := by
  unfold line? at h
  have hn := (List.getElem?_eq_some_iff.mp h).1
  unfold lastLine lineCount
  omega

/-! ## 2. The first line that fits -/

def holdsAt (doc : Document) (p : Line → Bool) (n : Nat) : Bool :=
  (doc.line? n).any p

theorem holdsAt_eq_true_iff {p : Line → Bool} {n : Nat} :
    doc.holdsAt p n = true ↔ ∃ text, doc.line? n = some text ∧ p text = true :=
  Option.any_eq_true ..

theorem le_lastLine_of_holdsAt {p : Line → Bool} {n : Nat} (h : doc.holdsAt p n = true) :
    n ≤ doc.lastLine := by
  rcases holdsAt_eq_true_iff.mp h with ⟨text, htext, -⟩
  exact le_lastLine_of_line? htext

section

variable {p : Line → Bool} {n m : Nat} {s : Nat → Prop} {r : Nat → Nat → Prop}
  {lines : List (Line × Nat)}

/-- Among the lines with an index in `s`, in the order `r`, the first one that fits comes before all
others that do. -/
theorem findSome?_fits (hmem : ∀ x, x ∈ lines ↔ s x.2 ∧ doc.line? x.2 = some x.1)
    (hr : lines.Pairwise fun x y => r x.2 y.2)
    (h : lines.findSome? (fun x => if p x.1 then some x.2 else none) = some n) :
    s n ∧ doc.holdsAt p n = true ∧ ∀ k, s k → doc.holdsAt p k = true → k = n ∨ r n k := by
  rcases List.findSome?_eq_some_iff.mp h with ⟨before, x, behind, rfl, hx, hbefore⟩
  split at hx
  · rename_i hp
    cases hx
    rcases (hmem x).mp (by simp) with ⟨hs, hline⟩
    refine ⟨hs, holdsAt_eq_true_iff.mpr ⟨_, hline, hp⟩, ?_⟩
    intro k hk hfits
    rcases holdsAt_eq_true_iff.mp hfits with ⟨text, htext, hptext⟩
    -- another line that fits is not in front of the one found, so it is that one or behind it
    rcases List.mem_append.mp ((hmem (text, k)).mpr ⟨hk, htext⟩) with hy | hy
    · have hnone := hbefore _ hy
      rw [if_pos hptext] at hnone
      cases hnone
    · rcases List.mem_cons.mp hy with rfl | hy
      · exact .inl rfl
      · have htail := (List.pairwise_append.mp hr).2.1
        exact .inr ((List.pairwise_cons.mp htail).1 _ hy)
  · cases hx

theorem findSome?_fits_eq_none (hmem : ∀ x, x ∈ lines ↔ s x.2 ∧ doc.line? x.2 = some x.1)
    (h : lines.findSome? (fun x => if p x.1 then some x.2 else none) = none) :
    ∀ k, s k → doc.holdsAt p k = false := by
  intro k hk
  rw [← Bool.not_eq_true]
  intro hfits
  rcases holdsAt_eq_true_iff.mp hfits with ⟨text, htext, hp⟩
  have hnone := List.findSome?_eq_none_iff.mp h _ ((hmem (text, k)).mpr ⟨hk, htext⟩)
  rw [if_pos hp] at hnone
  cases hnone

theorem mem_above (x : Line × Nat) :
    x ∈ (doc.numbered.take (m + 1)).reverse ↔ x.2 ≤ m ∧ doc.line? x.2 = some x.1 := by
  rw [List.mem_reverse, mem_take_numbered, Nat.lt_succ_iff]

/-- Reading upwards from line `m` finds the nearest line that fits. -/
theorem findSome?_above
    (h : (doc.numbered.take (m + 1)).reverse.findSome?
      (fun x => if p x.1 then some x.2 else none) = some n) :
    n ≤ m ∧ doc.holdsAt p n = true ∧ ∀ k, n < k → k ≤ m → doc.holdsAt p k = false := by
  have hr : (doc.numbered.take (m + 1)).reverse.Pairwise fun x y => x.2 > y.2 := by
    rw [List.pairwise_reverse]
    exact doc.pairwise_numbered.take
  rcases findSome?_fits (s := (· ≤ m)) (r := (· > ·)) mem_above hr h with ⟨hn, hfits, hothers⟩
  refine ⟨hn, hfits, fun k hk hkm => ?_⟩
  rw [← Bool.not_eq_true]
  intro hk'
  have := hothers k hkm hk'
  omega

/-- Reading downwards from line `m` finds the first line that fits. -/
theorem findSome?_below
    (h : (doc.numbered.drop m).findSome? (fun x => if p x.1 then some x.2 else none) = some n) :
    m ≤ n ∧ doc.holdsAt p n = true ∧ ∀ k, m ≤ k → k < n → doc.holdsAt p k = false := by
  rcases findSome?_fits (s := (m ≤ ·)) (r := (· < ·)) (fun _ => mem_drop_numbered)
      doc.pairwise_numbered.drop h with ⟨hn, hfits, hothers⟩
  refine ⟨hn, hfits, fun k hk hkn => ?_⟩
  rw [← Bool.not_eq_true]
  intro hk'
  have := hothers k hk hk'
  omega

end

/-! ## 3. Words -/

/-- The longest run of identifier characters that starts at `p`. -/
def wordFrom (doc : Document) (p : Position) : Line :=
  (((doc.line? p.line).getD []).drop p.character).takeWhile isIdentChar

/-- One of the four sigils stands right in front of `p`. -/
def SigilBefore (doc : Document) (p : Position) : Prop :=
  ∃ c ∈ ['$', '#', '@', '!'], doc.charBefore? p = some c

theorem wordFrom_of_line? {n : Nat} (h : doc.line? n = some text) (c : Nat) :
    doc.wordFrom ⟨n, c⟩ = (text.drop c).takeWhile isIdentChar := by
  unfold wordFrom
  rw [h]
  rfl

theorem charBefore?_of_line? {n : Nat} (h : doc.line? n = some text) (c : Nat) :
    doc.charBefore? ⟨n, c + 1⟩ = text[c]? := by
  simp only [charBefore?, char?, h, Option.bind_eq_bind, Option.bind_some]

/-! ## 4. Columns and bytes -/

/-- How many bytes a text has in UTF-8. -/
def byteLength : Line → Nat
  | [] => 0
  | c :: text => c.utf8Size + byteLength text

/-- A character is read whole, since it has at least one byte. -/
theorem columnOfOffset_go_cons (col k : Nat) (c : Char) (text : Line) :
    columnOfOffset.go col (c.utf8Size + k) (c :: text) = columnOfOffset.go (col + 1) k text := by
  have hpos := c.utf8Size_pos
  have hle : c.utf8Size ≤ c.utf8Size + k := Nat.le_add_right _ _
  have hsub : c.utf8Size + k - c.utf8Size = k := Nat.add_sub_cancel_left _ _
  -- the conversion splits on the offset, not on the size of the character
  generalize c.utf8Size + k = offset at hle hsub
  cases offset with
  | zero => omega
  | succ offset =>
    rw [columnOfOffset.go, if_pos hle, hsub]
    exact Nat.succ_ne_zero offset

theorem columnOfOffset_go_take (col c : Nat) (text : Line) (hc : c ≤ text.length) :
    columnOfOffset.go col (byteLength (text.take c)) text = col + c := by
  induction c generalizing col text with
  | zero => simp [byteLength, columnOfOffset.go]
  | succ c ih =>
    cases text with
    | nil => simp at hc
    | cons ch rest =>
      rw [List.take_succ_cons, byteLength, columnOfOffset_go_cons,
        ih (col + 1) rest (by simpa using hc)]
      omega

/-- The bytes in front of a column lead back to it, whatever characters they encode. -/
theorem columnOfOffset_take {c : Nat} (hc : c ≤ text.length) :
    columnOfOffset text (byteLength (text.take c)) = c := by
  unfold columnOfOffset
  rw [columnOfOffset_go_take 0 c text hc, Nat.zero_add]

/-! ## 5. Indentation -/

/-- Only blanks stand in front of column `col`, and either some other character stands there or the
line ends there. -/
def IsIndent (text : Line) (col : Nat) : Prop :=
  (∀ c ∈ text.take col, Text.isBlank c = true) ∧
    ((∃ c, text[col]? = some c ∧ Text.isBlank c = false) ∨ col = text.length)

theorem isIndent_indent (text : Line) : IsIndent text (indent text) := by
  unfold IsIndent indent
  induction text with
  | nil => simp
  | cons c rest ih =>
    by_cases hc : Text.isBlank c = true
    · rw [List.takeWhile_cons_of_pos hc]
      rcases ih with ⟨hblank, hstop⟩
      refine ⟨?_, ?_⟩
      · intro d hd
        rcases List.mem_cons.mp hd with rfl | hd
        · exact hc
        · exact hblank d hd
      · simpa using hstop
    · rw [List.takeWhile_cons_of_neg hc]
      simp [hc]

theorem IsIndent.le_length {col : Nat} (h : IsIndent text col) : col ≤ text.length := by
  rcases h.2 with ⟨c, hc, -⟩ | heq
  · exact Nat.le_of_lt (List.getElem?_eq_some_iff.mp hc).1
  · exact Nat.le_of_eq heq

end RuleLens.Document
