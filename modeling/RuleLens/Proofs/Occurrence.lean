import RuleLens.Proofs.Document
import RuleLens.Proofs.Text

/-!
# First occurrences

A search that reads lines from the top and asks for the first occurrence of a pattern on each of
them finds the first occurrence on all of them, in the order of positions.
-/

namespace RuleLens

theorem Position.eq_of_not_lt {p q : Position} (h : ¬ p < q) (h' : ¬ q < p) : p = q := by
  rcases p with ⟨line, character⟩
  rcases q with ⟨line', character'⟩
  change ¬ (line < line' ∨ line = line' ∧ character < character') at h
  change ¬ (line' < line ∨ line' = line ∧ character' < character) at h'
  rw [Position.mk.injEq]
  omega

namespace Document

variable {doc : Document} {keep keep' : Nat → Prop} {pat : Line} {o : Position}
  {lines : List (Line × Nat)}

/-- The pattern starts at a position. -/
def OccursAt (doc : Document) (pat : Line) (o : Position) : Prop :=
  ∃ text, doc.line? o.line = some text ∧ pat <+: text.drop o.character

/-- An occurrence on a line that `keep` takes, with none in front of it on such lines. -/
structure FirstOccurrence (doc : Document) (keep : Nat → Prop) (pat : Line) (o : Position) :
    Prop where
  kept : keep o.line
  occurs : doc.OccursAt pat o
  first : ∀ q, keep q.line → doc.OccursAt pat q → ¬ q < o

theorem infix_of_occursAt {text : Line} (hline : doc.line? o.line = some text)
    (h : doc.OccursAt pat o) : pat <:+: text := by
  rcases h with ⟨text', hline', hat⟩
  rw [hline] at hline'
  cases hline'
  exact hat.isInfix.trans (List.drop_suffix _ _).isInfix

/-- A line is cut around an occurrence. -/
theorem exists_cut_of_occursAt (hne : pat ≠ []) (h : doc.OccursAt pat o) :
    ∃ front tail, front.length = o.character ∧
      doc.line? o.line = some (front ++ pat ++ tail) := by
  rcases h with ⟨text, hline, tail, htail⟩
  have hpos : 0 < pat.length := List.length_pos_iff.mpr hne
  have hlength := congrArg List.length htail
  rw [List.length_append, List.length_drop] at hlength
  -- nothing occurs behind the end of a line
  have hle : o.character ≤ text.length := by omega
  refine ⟨text.take o.character, tail, ?_, ?_⟩
  · rw [List.length_take, Nat.min_eq_left hle]
  · rw [hline, List.append_assoc, htail, List.take_append_drop]

namespace FirstOccurrence

theorem line_le (h : doc.FirstOccurrence keep pat o) {q : Position} (hq : keep q.line)
    (hat : doc.OccursAt pat q) : o.line ≤ q.line :=
  Nat.le_of_not_lt fun hlt => h.first q hq hat (.inl hlt)

theorem character_le (h : doc.FirstOccurrence keep pat o) {col : Nat}
    (hat : doc.OccursAt pat ⟨o.line, col⟩) : o.character ≤ col :=
  Nat.le_of_not_lt fun hlt => h.first ⟨o.line, col⟩ h.kept hat (.inr ⟨rfl, hlt⟩)

theorem unique (h : doc.FirstOccurrence keep pat o) {q : Position}
    (h' : doc.FirstOccurrence keep pat q) : o = q :=
  Position.eq_of_not_lt (h'.first o h.kept h.occurs) (h.first q h'.kept h'.occurs)

/-- The first occurrence on some lines is the first one on any part of them that it lies on. -/
theorem mono (h : doc.FirstOccurrence keep pat o) (hkeep : ∀ n, keep' n → keep n)
    (hkept : keep' o.line) : doc.FirstOccurrence keep' pat o :=
  ⟨hkept, h.occurs, fun q hq => h.first q (hkeep q.line hq)⟩

end FirstOccurrence

/-- The search for the first occurrence on each line, as a function of the numbered lines. -/
def findOccurrence (pat : Line) (lines : List (Line × Nat)) : Option Position :=
  lines.findSome? fun x => (Text.find? pat x.1).map (⟨x.2, ·⟩)

theorem findOccurrence_eq_none_iff
    (hmem : ∀ x, x ∈ lines ↔ keep x.2 ∧ doc.line? x.2 = some x.1) :
    findOccurrence pat lines = none ↔ ∀ q, keep q.line → ¬ doc.OccursAt pat q := by
  unfold findOccurrence
  rw [List.findSome?_eq_none_iff]
  constructor
  · intro h q hq hat
    have hat' := hat
    rcases hat' with ⟨text, hline, -⟩
    have hnone := h (text, q.line) ((hmem _).mpr ⟨hq, hline⟩)
    rw [Option.map_eq_none_iff, Text.find?_eq_none_iff] at hnone
    exact hnone (infix_of_occursAt hline hat)
  · intro h x hx
    rcases (hmem x).mp hx with ⟨hkeep, hline⟩
    rw [Option.map_eq_none_iff]
    cases hcol : Text.find? pat x.1 with
    | none => rfl
    | some col =>
      have hat := (Text.find?_eq_some_iff.mp hcol).2.1
      exact absurd ⟨x.1, hline, hat⟩ (h ⟨x.2, col⟩ hkeep)

/-- Of lines that are read from the top, one that lies further up is read before. -/
theorem mem_before_of_lt {before behind : List (Line × Nat)} {x y : Line × Nat}
    (hr : (before ++ x :: behind).Pairwise fun x y => x.2 < y.2)
    (hy : y ∈ before ++ x :: behind) (hlt : y.2 < x.2) : y ∈ before := by
  rcases List.mem_append.mp hy with hy | hy
  · exact hy
  · have htail := (List.pairwise_append.mp hr).2.1
    rcases List.mem_cons.mp hy with rfl | hy
    · omega
    · have hgt := (List.pairwise_cons.mp htail).1 y hy
      omega

theorem firstOccurrence_of_findOccurrence
    (hmem : ∀ x, x ∈ lines ↔ keep x.2 ∧ doc.line? x.2 = some x.1)
    (hr : lines.Pairwise fun x y => x.2 < y.2) (h : findOccurrence pat lines = some o) :
    doc.FirstOccurrence keep pat o := by
  rcases List.findSome?_eq_some_iff.mp h with ⟨before, x, behind, rfl, hx, hbefore⟩
  rcases Option.map_eq_some_iff.mp hx with ⟨col, hcol, rfl⟩
  rcases Text.find?_eq_some_iff.mp hcol with ⟨-, hat, hfirst⟩
  rcases (hmem x).mp (by simp) with ⟨hkeep, hline⟩
  refine ⟨hkeep, ⟨x.1, hline, hat⟩, ?_⟩
  intro q hq hocc hlt
  rcases hlt with hlt | ⟨hsame, hlt⟩
  · -- a line further up was read before, and nothing was found on it
    have hocc' := hocc
    rcases hocc' with ⟨text, hline', -⟩
    have hy := mem_before_of_lt hr ((hmem (text, q.line)).mpr ⟨hq, hline'⟩) hlt
    have hnone := hbefore _ hy
    rw [Option.map_eq_none_iff, Text.find?_eq_none_iff] at hnone
    exact hnone (infix_of_occursAt hline' hocc)
  · -- and on its own line the first column was taken
    rcases hocc with ⟨text, hline', hat'⟩
    rw [hsame, hline] at hline'
    cases hline'
    exact hfirst q.character hlt hat'

theorem findOccurrence_eq_some_iff
    (hmem : ∀ x, x ∈ lines ↔ keep x.2 ∧ doc.line? x.2 = some x.1)
    (hr : lines.Pairwise fun x y => x.2 < y.2) :
    findOccurrence pat lines = some o ↔ doc.FirstOccurrence keep pat o := by
  constructor
  · exact firstOccurrence_of_findOccurrence hmem hr
  · intro h
    cases hfound : findOccurrence pat lines with
    | none => exact absurd h.occurs ((findOccurrence_eq_none_iff hmem).mp hfound o h.kept)
    | some q => rw [(firstOccurrence_of_findOccurrence hmem hr hfound).unique h]

end Document

end RuleLens
