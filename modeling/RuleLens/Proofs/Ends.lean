import Mathlib.Data.Set.Basic
import Mathlib.Order.Bounds.Defs
import RuleLens.Proofs.Scope

/-!
# The ends of a block

The block of a line lies between extremal lines: the last header at or above the line, and from
there on the first closing brace.  Which brace that is depends on the header alone, so two blocks
with a line in common end together.
-/

namespace RuleLens.RuleScope

variable {doc : Document} {n k first : Nat} {scope : RuleScope}

/-! ## 1. Headers and closing braces -/

/-- The lines at or above line `n` that begin with the keyword and a space.  A line past the end
counts as the last one. -/
def headersAbove (doc : Document) (n : Nat) : Set Nat :=
  {k | k ≤ min n doc.lastLine ∧
    ∃ text, doc.line? k = some text ∧ ['r', 'u', 'l', 'e', ' '] <+: text}

/-- The lines at or below line `first` that are a closing brace and blanks behind it. -/
def closingsFrom (doc : Document) (first : Nat) : Set Nat :=
  {k | first ≤ k ∧ ∃ text, doc.line? k = some text ∧ Text.trimEnd text = ['\x7d']}

theorem mem_headersAbove :
    k ∈ headersAbove doc n ↔ k ≤ min n doc.lastLine ∧ doc.headerAt k = true := by
  unfold headersAbove Document.headerAt isHeader
  rw [Set.mem_ofPred_eq, Document.holdsAt_eq_true_iff]
  simp only [List.isPrefixOf_iff_prefix]

theorem mem_closingsFrom : k ∈ closingsFrom doc first ↔ first ≤ k ∧ doc.closingAt k = true := by
  unfold closingsFrom Document.closingAt isClosing
  rw [Set.mem_ofPred_eq, Document.holdsAt_eq_true_iff]
  simp only [beq_iff_eq]

theorem headersAbove_eq_empty_iff : headersAbove doc n = ∅ ↔ NoHeaderAbove doc n := by
  unfold NoHeaderAbove
  rw [Set.eq_empty_iff_forall_notMem]
  refine forall_congr' fun k => ?_
  rw [mem_headersAbove, not_and, Bool.not_eq_true]

/-! ## 2. Extremal lines -/

/-- What starts at line `first` ends at the first closing brace from there on, or at the last line
if there is none. -/
def EndsAt (doc : Document) (first last : Nat) : Prop :=
  IsLeast (closingsFrom doc first) last ∨ (closingsFrom doc first = ∅ ∧ last = doc.lastLine)

theorem IsBlockOf.isGreatest_first (h : IsBlockOf doc n scope) :
    IsGreatest (headersAbove doc n) scope.first := by
  constructor
  · exact mem_headersAbove.mpr ⟨h.first_le, h.header⟩
  · intro k hk
    rw [mem_headersAbove] at hk
    exact h.le_first hk.2 hk.1

theorem IsBlockOf.le_of_mem_closingsFrom (h : IsBlockOf doc n scope)
    (hk : k ∈ closingsFrom doc scope.first) : scope.last ≤ k := by
  rw [mem_closingsFrom] at hk
  apply Nat.le_of_not_lt
  intro hlt
  have hopen := h.unclosed k hk.1 hlt
  rw [hk.2] at hopen
  cases hopen

theorem IsBlockOf.endsAt_last (h : IsBlockOf doc n scope) : EndsAt doc scope.first scope.last := by
  by_cases hclosing : doc.closingAt scope.last = true
  · left
    constructor
    · exact mem_closingsFrom.mpr ⟨scope.first_le_last, hclosing⟩
    · intro k hk
      exact h.le_of_mem_closingsFrom hk
  · -- a block that no brace ends reaches the last line, and no brace comes behind that
    have hlast : scope.last = doc.lastLine :=
      Nat.le_antisymm h.last_le (Nat.le_of_not_lt fun hlt => hclosing (h.closed hlt))
    right
    refine ⟨Set.eq_empty_iff_forall_notMem.mpr fun k hk => ?_, hlast⟩
    have hle := h.le_of_mem_closingsFrom hk
    have hk' := (mem_closingsFrom.mp hk).2
    have hend : k ≤ doc.lastLine := Document.le_lastLine_of_holdsAt hk'
    obtain rfl : k = scope.last := by omega
    exact hclosing hk'

/-- A line has no block exactly if no header stands at or above it.  Otherwise its block starts at
the last such header and ends at the first closing brace from there on, or at the last line of the
document.  Blocks of two lines that have a line in common end together. -/
theorem locate_ends (doc : Document) (n : Nat) :
    ((locate doc n).answer .never = .error (.noEnclosingRule n) ↔ headersAbove doc n = ∅) ∧
    (headersAbove doc n ≠ ∅ → ∃ scope, (locate doc n).answer .never = .ok scope) ∧
    ∀ token scope, (locate doc n).answer token = .ok scope →
      IsGreatest (headersAbove doc n) scope.first ∧ EndsAt doc scope.first scope.last ∧
      scope.first ≤ scope.last ∧ scope.last ≤ doc.lastLine ∧
      ∀ m token' other k, (locate doc m).answer token' = .ok other →
        scope.contains k = true → other.contains k = true → scope.last = other.last := by
  refine ⟨?_, ?_, ?_⟩
  · rw [headersAbove_eq_empty_iff, locate_eq_error_iff]
  · intro hheader
    rw [ne_eq, headersAbove_eq_empty_iff] at hheader
    obtain ⟨scope, hscope⟩ := (exists_isBlockOf_or_noHeaderAbove doc n).resolve_right hheader
    exact ⟨scope, hscope.settles_locate.answer_never⟩
  · intro token scope hscope
    have hblock := isBlockOf_of_locate hscope
    refine ⟨hblock.isGreatest_first, hblock.endsAt_last, scope.first_le_last, hblock.last_le, ?_⟩
    intro m token' other k hother hk hk'
    exact hblock.last_eq (isBlockOf_of_locate hother) hk hk'

/-- A rule on one line is not closed there, so its block ends with that of the next rule. -/
theorem locate_ends_one_line_rule :
    let doc := Document.ofString "rule A \x7b \x7d\nrule B \x7b\n\x7d\n"
    (locate doc 0).answer .never = .ok (ofEnds 0 2) ∧
      (locate doc 1).answer .never = .ok (ofEnds 1 2) ∧
      IsGreatest (headersAbove doc 0) 0 ∧ EndsAt doc 0 2 ∧
      (ofEnds 0 2).last = (ofEnds 1 2).last := by
  intro doc
  have hfirst : (locate doc 0).answer .never = .ok (ofEnds 0 2) := rfl
  have hsecond : (locate doc 1).answer .never = .ok (ofEnds 1 2) := rfl
  obtain ⟨hgreatest, hends, -, -, hshared⟩ := (locate_ends doc 0).2.2 .never (ofEnds 0 2) hfirst
  exact ⟨hfirst, hsecond, hgreatest, hends, hshared 1 .never (ofEnds 1 2) 1 hsecond rfl rfl⟩

end RuleLens.RuleScope
