import RuleLens.Symbol.Scope
import RuleLens.Proofs.Document
import RuleLens.Proofs.Query

/-!
# The block of a line

`IsBlockOf` says which lines the block of a line has without searching for them.  There is at most
one such block, looking for a block finds it, and two blocks with a line in common end together.
The block of a line need not contain that line: it does not if the rule was closed further up.
-/

namespace RuleLens

open Query

def Document.headerAt (doc : Document) (n : Nat) : Bool :=
  doc.holdsAt RuleScope.isHeader n

def Document.closingAt (doc : Document) (n : Nat) : Bool :=
  doc.holdsAt RuleScope.isClosing n

namespace RuleScope

variable {doc : Document} {n m : Nat} {scope inner : RuleScope}

theorem contains_eq_true_iff : scope.contains n = true ↔ scope.first ≤ n ∧ n ≤ scope.last := by
  unfold contains
  rw [Bool.and_eq_true, decide_eq_true_eq, decide_eq_true_eq]

/-! ## 1. What a block is -/

/-- The block from the nearest header at or above line `n` to the first closing brace from there on,
or to the last line.  A line past the end counts as the last one. -/
structure IsBlockOf (doc : Document) (n : Nat) (scope : RuleScope) : Prop where
  first_le : scope.first ≤ min n doc.lastLine
  header : doc.headerAt scope.first = true
  nearest : ∀ k, scope.first < k → k ≤ min n doc.lastLine → doc.headerAt k = false
  last_le : scope.last ≤ doc.lastLine
  unclosed : ∀ k, scope.first ≤ k → k < scope.last → doc.closingAt k = false
  closed : scope.last < doc.lastLine → doc.closingAt scope.last = true

/-- Two blocks with a line in common end together: the first closing brace behind that line closes
both. -/
theorem IsBlockOf.last_eq (h : IsBlockOf doc n scope) (h' : IsBlockOf doc m inner) {k : Nat}
    (hk : scope.contains k = true) (hk' : inner.contains k = true) : scope.last = inner.last := by
  rw [contains_eq_true_iff] at hk hk'
  rcases Nat.lt_trichotomy scope.last inner.last with hlt | heq | hgt
  -- the block that ends first ends with a brace, which the other one would run past
  · have hclosed := h.closed (by have := h'.last_le; omega)
    rw [h'.unclosed scope.last (by omega) hlt] at hclosed
    cases hclosed
  · exact heq
  · have hclosed := h'.closed (by have := h.last_le; omega)
    rw [h.unclosed inner.last (by omega) hgt] at hclosed
    cases hclosed

/-- The block of a line starts no higher than any header above the line. -/
theorem IsBlockOf.le_first (h : IsBlockOf doc n scope) {k : Nat} (hk : doc.headerAt k = true)
    (hkn : k ≤ min n doc.lastLine) : k ≤ scope.first := by
  by_cases hlt : scope.first < k
  · rw [h.nearest k hlt hkn] at hk
    cases hk
  · omega

theorem eq_of_ends (hfirst : scope.first = inner.first) (hlast : scope.last = inner.last) :
    scope = inner := by
  cases scope
  cases inner
  simp only [mk.injEq]
  exact ⟨hfirst, hlast⟩

theorem IsBlockOf.unique (h : IsBlockOf doc n scope) (h' : IsBlockOf doc n inner) :
    scope = inner := by
  -- each header is at or above the line, so neither stands above the other
  have hfirst : scope.first = inner.first :=
    Nat.le_antisymm (h'.le_first h.header h.first_le) (h.le_first h'.header h'.first_le)
  refine eq_of_ends hfirst (h.last_eq h' (k := scope.first) ?_ ?_)
  · exact contains_eq_true_iff.mpr ⟨Nat.le_refl _, scope.first_le_last⟩
  · exact contains_eq_true_iff.mpr ⟨by omega, hfirst ▸ inner.first_le_last⟩

/-! ## 2. Looking for a block -/

/-- No line at or above line `n` is a header. -/
def NoHeaderAbove (doc : Document) (n : Nat) : Prop :=
  ∀ k, k ≤ min n doc.lastLine → doc.headerAt k = false

/-- The end of the block that starts at line `first`: the first closing brace, or the last line. -/
theorem isBlockOf_ofEnds {first : Nat} {last : Option Nat} (hfirst : first ≤ min n doc.lastLine)
    (hheader : doc.headerAt first = true)
    (hnearest : ∀ k, first < k → k ≤ min n doc.lastLine → doc.headerAt k = false)
    (hlast : (doc.numbered.drop first).findSome?
      (fun x => if isClosing x.1 then some x.2 else none) = last) :
    IsBlockOf doc n (ofEnds first (last.getD doc.lastLine)) := by
  cases last with
  | some k =>
    -- the search starts at the header, so the block does not end above it
    rcases Document.findSome?_below hlast with ⟨hk, hclosing, hopen⟩
    have hmax : max k first = k := by omega
    refine ⟨hfirst, hheader, hnearest, ?_, fun j hj hjk => hopen j hj ?_, fun _ => ?_⟩
    · have := Document.le_lastLine_of_holdsAt hclosing
      simpa only [ofEnds, Option.getD_some, hmax] using this
    · simpa only [ofEnds, Option.getD_some, hmax] using hjk
    · change doc.closingAt k = true at hclosing
      simpa only [ofEnds, Option.getD_some, hmax] using hclosing
  | none =>
    have hopen := Document.findSome?_fits_eq_none (s := (first ≤ ·))
      (fun _ => Document.mem_drop_numbered) hlast
    have hmax : max doc.lastLine first = doc.lastLine := by omega
    refine ⟨hfirst, hheader, hnearest, ?_, fun j hj _ => hopen j hj, fun hlt => ?_⟩
    · simp only [ofEnds, Option.getD_none, hmax, Nat.le_refl]
    · simp only [ofEnds, Option.getD_none, hmax, Nat.lt_irrefl] at hlt

/-- Looking for the block of a line finds it, or finds no header. -/
theorem settles_locate?_cases (doc : Document) (n : Nat) :
    (∃ scope, IsBlockOf doc n scope ∧ Settles (locate? doc n) (.ok (some scope))) ∨
      (NoHeaderAbove doc n ∧ Settles (locate? doc n) (.ok none)) := by
  have hup := settles_firstOf (fun text n => if isHeader text then some n else none)
    (doc.numbered.take (min n doc.lastLine + 1)).reverse
  cases hfirst : (doc.numbered.take (min n doc.lastLine + 1)).reverse.findSome?
      (fun x => if isHeader x.1 then some x.2 else none) with
  | none =>
    rw [hfirst] at hup
    refine .inr ⟨?_, hup.bind (settles_pure none)⟩
    exact Document.findSome?_fits_eq_none (s := (· ≤ min n doc.lastLine)) Document.mem_above hfirst
  | some first =>
    rw [hfirst] at hup
    rcases Document.findSome?_above hfirst with ⟨hle, hheader, hnearest⟩
    have hdown := settles_firstOf (fun text n => if isClosing text then some n else none)
      (doc.numbered.drop first)
    refine .inl ⟨_, isBlockOf_ofEnds hle hheader hnearest rfl, ?_⟩
    exact hup.bind (hdown.bind (settles_pure _))

theorem exists_isBlockOf_or_noHeaderAbove (doc : Document) (n : Nat) :
    (∃ scope, IsBlockOf doc n scope) ∨ NoHeaderAbove doc n := by
  rcases settles_locate?_cases doc n with ⟨scope, hscope, -⟩ | ⟨hnone, -⟩
  · exact .inl ⟨scope, hscope⟩
  · exact .inr hnone

theorem exists_isBlockOf_of_headerAt {k : Nat} (hk : doc.headerAt k = true)
    (hkn : k ≤ min n doc.lastLine) : ∃ scope, IsBlockOf doc n scope := by
  rcases exists_isBlockOf_or_noHeaderAbove doc n with hblock | hnone
  · exact hblock
  · rw [hnone k hkn] at hk
    cases hk

theorem IsBlockOf.not_noHeaderAbove (h : IsBlockOf doc n scope) : ¬ NoHeaderAbove doc n := by
  intro hnone
  have hheader := h.header
  rw [hnone scope.first h.first_le] at hheader
  cases hheader

theorem IsBlockOf.settles_locate? (h : IsBlockOf doc n scope) :
    Settles (locate? doc n) (.ok (some scope)) := by
  rcases settles_locate?_cases doc n with ⟨found, hfound, hsettles⟩ | ⟨hnone, -⟩
  · rw [h.unique hfound]
    exact hsettles
  · exact absurd hnone h.not_noHeaderAbove

theorem NoHeaderAbove.settles_locate? (h : NoHeaderAbove doc n) :
    Settles (locate? doc n) (.ok none) := by
  rcases settles_locate?_cases doc n with ⟨found, hfound, -⟩ | ⟨-, hsettles⟩
  · exact absurd h hfound.not_noHeaderAbove
  · exact hsettles

theorem IsBlockOf.settles_locate (h : IsBlockOf doc n scope) :
    Settles (locate doc n) (.ok scope) :=
  h.settles_locate?.bind (settles_pure scope)

theorem NoHeaderAbove.settles_locate (h : NoHeaderAbove doc n) :
    Settles (locate doc n) (.error (.noEnclosingRule n)) :=
  h.settles_locate?.bind (settles_throw _)

/-- Whatever block is answered, under any token, is the block of the line. -/
theorem isBlockOf_of_locate {token : Token} (h : (locate doc n).answer token = .ok scope) :
    IsBlockOf doc n scope := by
  rcases exists_isBlockOf_or_noHeaderAbove doc n with ⟨found, hfound⟩ | hnone
  · have heq := hfound.settles_locate.eq_of_answer h
    cases heq
    exact hfound
  · cases hnone.settles_locate.eq_of_answer h

/-! ## 3. Lines of a block -/

/-- Line `m` lies in the block, and its own block is what is left of the block from some header on:
all of it, unless another header stands between the first line and line `m`. -/
def BlockWithin (doc : Document) (scope : RuleScope) (m : Nat) : Prop :=
  scope.contains m = true ∧ ∃ inner, (locate doc m).answer .never = .ok inner ∧
    scope.first ≤ inner.first ∧ inner.last = scope.last ∧
    (inner = scope ↔ ∀ k, k ≤ m → scope.first < k → doc.headerAt k = false)

theorem IsBlockOf.exists_inner (h : IsBlockOf doc n scope) (hm : scope.contains m = true) :
    ∃ inner, IsBlockOf doc m inner ∧ scope.first ≤ inner.first ∧ inner.last = scope.last := by
  rcases contains_eq_true_iff.mp hm with ⟨hfirst, hlast⟩
  have hend := h.last_le
  rcases exists_isBlockOf_of_headerAt (n := m) h.header (by omega) with ⟨inner, hinner⟩
  have hle : scope.first ≤ inner.first := hinner.le_first h.header (by omega)
  have hfirst' := hinner.first_le
  have hends := inner.first_le_last
  have hm' : m ≤ inner.last := by
    -- a brace that closed the inner block in front of line `m` would have closed the outer one
    apply Nat.le_of_not_lt
    intro hlt
    have hclosed := hinner.closed (by omega)
    rw [h.unclosed inner.last (by omega) (by omega)] at hclosed
    cases hclosed
  refine ⟨inner, hinner, hle, ?_⟩
  apply hinner.last_eq h _ hm
  exact contains_eq_true_iff.mpr ⟨by omega, hm'⟩

theorem IsBlockOf.blockWithin (h : IsBlockOf doc n scope) (hm : scope.contains m = true) :
    BlockWithin doc scope m := by
  rcases h.exists_inner hm with ⟨inner, hinner, hfirst, hlast⟩
  have hmin : min m doc.lastLine = m := by
    have hm' := contains_eq_true_iff.mp hm
    have := h.last_le
    omega
  refine ⟨hm, inner, hinner.settles_locate.answer_never, hfirst, hlast, ?_, ?_⟩
  · intro heq k hk hlt
    subst heq
    exact hinner.nearest k hlt (by omega)
  · intro hnone
    refine eq_of_ends (Nat.le_antisymm (Nat.le_of_not_lt fun hlt => ?_) hfirst) hlast
    have hle := hinner.first_le
    have hheader := hnone inner.first (by omega) hlt
    rw [hinner.header] at hheader
    cases hheader

theorem mem_lines {x : Line × Nat} :
    x ∈ scope.lines doc ↔ scope.contains x.2 = true ∧ doc.line? x.2 = some x.1 := by
  have hle := scope.first_le_last
  rw [contains_eq_true_iff]
  unfold lines size
  have hstop : scope.first + (scope.last - scope.first + 1) = scope.last + 1 := by omega
  rw [List.take_drop, hstop, Document.mem_drop_take_numbered, Nat.lt_succ_iff, and_assoc]

/-! ## 4. Lines behind a rule -/

/-- Line `n` stands behind the closing brace of the last rule above it, with no header between. -/
def BehindRule (doc : Document) (n : Nat) : Prop :=
  ∃ first last, doc.headerAt first = true ∧ doc.closingAt last = true ∧ first ≤ last ∧ last < n ∧
    ∀ k, k ≤ n → first < k → doc.headerAt k = false

/-- The block of a line behind a rule is that rule, which ends in front of the line. -/
theorem IsBlockOf.last_lt_of_behindRule (h : IsBlockOf doc n scope) (hn : n ≤ doc.lastLine)
    (hbehind : BehindRule doc n) : scope.last < n := by
  rcases hbehind with ⟨first, last, hheader, hclosing, hle, hlt, hnearest⟩
  have hfirst : first ≤ scope.first := h.le_first hheader (by omega)
  have hscope := h.first_le
  -- the header of the block is the one that the line stands behind
  have heq : first = scope.first := by
    by_cases hlt' : first < scope.first
    · have hnone := hnearest scope.first (by omega) hlt'
      rw [h.header] at hnone
      cases hnone
    · omega
  -- and it is closed by then, since no line of a block but its last one is a closing brace
  by_cases hcontra : n ≤ scope.last
  · rw [h.unclosed last (by omega) (by omega)] at hclosing
    cases hclosing
  · omega

theorem IsBlockOf.behindRule_of_last_lt (h : IsBlockOf doc n scope) (hn : n ≤ doc.lastLine)
    (hlast : scope.last < n) : BehindRule doc n := by
  refine ⟨scope.first, scope.last, h.header, h.closed (by omega), scope.first_le_last, hlast, ?_⟩
  intro k hkn hk
  exact h.nearest k hk (by omega)

theorem BehindRule.exists_isBlockOf (h : BehindRule doc n) (hn : n ≤ doc.lastLine) :
    ∃ scope, IsBlockOf doc n scope := by
  rcases h with ⟨first, last, hheader, -, hle, hlt, -⟩
  exact exists_isBlockOf_of_headerAt hheader (by omega)

theorem locate_eq_error_iff :
    (locate doc n).answer .never = .error (.noEnclosingRule n) ↔ NoHeaderAbove doc n := by
  constructor
  · intro h
    rcases exists_isBlockOf_or_noHeaderAbove doc n with ⟨scope, hscope⟩ | hnone
    · rw [hscope.settles_locate.answer_never] at h
      cases h
    · exact hnone
  · intro h
    exact h.settles_locate.answer_never

/-- A block that is found contains its line exactly if the line is not behind the rule.  Behind a
rule the rule is found all the same, and a line is without a block only if there is no header at or
above it. -/
theorem locate_contains_iff_not_behindRule (hn : n < doc.lineCount) :
    (∀ token scope, (locate doc n).answer token = .ok scope →
      (scope.contains n = true ↔ ¬ BehindRule doc n)) ∧
    (BehindRule doc n → ∃ scope, (locate doc n).answer .never = .ok scope ∧ scope.last < n) ∧
    ((locate doc n).answer .never = .error (.noEnclosingRule n) ↔
      ∀ k, k ≤ n → doc.headerAt k = false) := by
  have hlast : n ≤ doc.lastLine := by
    unfold Document.lastLine
    omega
  refine ⟨?_, ?_, ?_⟩
  · intro token scope hscope
    have hblock := isBlockOf_of_locate hscope
    have hfirst := hblock.first_le
    rw [contains_eq_true_iff]
    constructor
    · intro hcontains hbehind
      have := hblock.last_lt_of_behindRule hlast hbehind
      omega
    · intro hbehind
      refine ⟨by omega, Nat.le_of_not_lt fun hlt => ?_⟩
      exact hbehind (hblock.behindRule_of_last_lt hlast hlt)
  · intro hbehind
    rcases hbehind.exists_isBlockOf hlast with ⟨scope, hscope⟩
    exact ⟨scope, hscope.settles_locate.answer_never, hscope.last_lt_of_behindRule hlast hbehind⟩
  · rw [locate_eq_error_iff]
    unfold NoHeaderAbove
    rw [Nat.min_eq_left hlast]

/-- The line under a closed rule has that rule for its block. -/
theorem locate_behind_closed_rule :
    let doc := Document.ofString "rule R \x7b\n\x7d\n$a"
    2 < doc.lineCount ∧ BehindRule doc 2 ∧
      ∃ scope, (locate doc 2).answer .never = .ok scope ∧ scope.last < 2 := by
  have hlines : 2 < (Document.ofString "rule R \x7b\n\x7d\n$a").lineCount := by decide
  have hbehind : BehindRule (Document.ofString "rule R \x7b\n\x7d\n$a") 2 :=
    ⟨0, 1, by decide, by decide, by decide, by decide, by decide⟩
  exact ⟨hlines, hbehind, (locate_contains_iff_not_behindRule hlines).2.1 hbehind⟩

end RuleScope

end RuleLens
