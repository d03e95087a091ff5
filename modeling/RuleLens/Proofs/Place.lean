import RuleLens.Diagnostic.Response
import RuleLens.Proofs.Path

/-!
# Files as users read them

A file below the root of the workspace is shown by what follows the root, any other one as it is.
The root is cut off by components, while what is left is a piece of the text.  Both views agree:
seen from the root, the text that is shown denotes the file it was made from.
-/

namespace RuleLens

namespace Path

variable {base p q : Path} {c : Component} {pieces rest tail : List (List Char)}

/-! ## 1. Dropping components -/

/-- One component is dropped with the pieces up to it. -/
theorem exists_of_dropComponent? (h : dropComponent? c pieces = some rest) :
    ∃ front, pieces = front ++ rest ∧ front.filterMap component? = [c] := by
  induction pieces with
  | nil => cases h
  | cons piece pieces ih =>
    unfold dropComponent? at h
    split at h
    · -- a piece that does not count goes with the component behind it
      rename_i hpiece
      obtain ⟨front, rfl, hfront⟩ := ih h
      exact ⟨piece :: front, rfl, by rw [List.filterMap_cons_none hpiece, hfront]⟩
    · rename_i d hpiece
      split at h
      · rename_i hcd
        cases h
        exact ⟨[piece], rfl, by rw [List.filterMap_cons_some hpiece, hcd]; rfl⟩
      · cases h

theorem exists_of_foldlM_dropComponent? {steps : List Component}
    (h : steps.foldlM (fun left c => dropComponent? c left) pieces = some rest) :
    ∃ front, pieces = front ++ rest ∧ front.filterMap component? = steps := by
  induction steps generalizing pieces with
  | nil =>
    cases h
    exact ⟨[], rfl, rfl⟩
  | cons c steps ih =>
    rw [List.foldlM_cons] at h
    obtain ⟨next, hnext, hrest⟩ := Option.bind_eq_some_iff.mp h
    obtain ⟨front, rfl, hfront⟩ := exists_of_dropComponent? hnext
    obtain ⟨behind, rfl, hbehind⟩ := ih hrest
    refine ⟨front ++ behind, (List.append_assoc front behind rest).symm, ?_⟩
    rw [List.filterMap_append, hfront, hbehind]
    rfl

/-- The path of the pieces behind a prefix, from the first one that counts up to the last. -/
def behind (tail : List (List Char)) : Path :=
  ofPieces none (tail.dropWhile (component? · |>.isNone))

/-- What follows a prefix stands behind pieces that have the components of the prefix. -/
theorem stripPrefix?_eq_some_iff (hbase : base.text ≠ "") :
    stripPrefix? base p = some q ↔
      ∃ body tail, anchor p.pieces = ((anchor base.pieces).1, body ++ tail) ∧
        body.filterMap component? = base.pieces.filterMap component? ∧ q = behind tail := by
  apply Iff.intro
  · intro h
    have hne := components_ne_nil hbase
    rw [components, filterMap_anchor] at hne
    unfold stripPrefix? at h
    simp only [filterMap_anchor] at h
    split at h
    · rename_i hstart hsteps
      rw [hstart, hsteps] at hne
      exact absurd rfl hne
    · split at h
      · rename_i hstart
        obtain ⟨tail, htail, h⟩ := Option.bind_eq_some_iff.mp h
        obtain ⟨body, hbody, hsteps⟩ := exists_of_foldlM_dropComponent? htail
        cases h
        exact ⟨body, tail, Prod.ext hstart.symm hbody, hsteps, rfl⟩
      · cases h
  · rintro ⟨body, tail, hanchor, hbody, rfl⟩
    exact stripPrefix?_of_anchor hbase hanchor hbody

/-! ## 2. Where a path starts -/

theorem eq_of_anchor (h : (anchor pieces).1 = some c) : c = .root ∨ c = .current := by
  unfold anchor at h
  split at h <;> cases h <;> simp

/-- Only the start of a path stands for the root or for a dot. -/
theorem component?_ne {piece : List Char} (h : component? piece = some c) :
    c ≠ .root ∧ c ≠ .current := by
  unfold component? at h
  split at h
  · cases h
  · split at h <;> cases h <;> simp

theorem not_mem_filterMap_of_anchor (h : (anchor pieces).1 = some c) (other : List (List Char)) :
    c ∉ other.filterMap component? := by
  intro hmem
  obtain ⟨piece, -, hpiece⟩ := List.mem_filterMap.mp hmem
  rcases eq_of_anchor h with rfl | rfl
  · exact (component?_ne hpiece).1 rfl
  · exact (component?_ne hpiece).2 rfl

/-- Paths of which one has the components of the other in front start alike. -/
theorem anchor_eq_of_isPrefix (hbase : base.text ≠ "") (h : base.components <+: p.components) :
    (anchor base.pieces).1 = (anchor p.pieces).1 := by
  have hne := components_ne_nil hbase
  rw [components_eq] at hne
  rw [components_eq, components_eq] at h
  cases hstart : (anchor base.pieces).1 with
  | none =>
    cases hstart' : (anchor p.pieces).1 with
    | none => rfl
    | some d =>
      -- the first step of the prefix would be the start of the path
      rw [hstart] at h hne
      rw [hstart'] at h
      obtain ⟨step, steps, hsteps⟩ := List.exists_cons_of_ne_nil hne
      have hnot := not_mem_filterMap_of_anchor hstart' base.pieces
      rw [Option.toList_none, List.nil_append] at h hsteps
      rw [hsteps] at h hnot
      obtain ⟨rfl, -⟩ := List.cons_prefix_cons.mp h
      exact absurd List.mem_cons_self hnot
  | some c =>
    rw [hstart] at h
    cases hstart' : (anchor p.pieces).1 with
    | none =>
      rw [hstart'] at h
      exact absurd (h.mem List.mem_cons_self) (not_mem_filterMap_of_anchor hstart _)
    | some d =>
      rw [hstart'] at h
      rw [(List.cons_prefix_cons.mp h).1]

/-- A prefix by components is one by pieces as well. -/
theorem exists_anchor_of_isPrefix (hbase : base.text ≠ "") (h : base.components <+: p.components) :
    ∃ body tail, anchor p.pieces = ((anchor base.pieces).1, body ++ tail) ∧
      body.filterMap component? = base.pieces.filterMap component? := by
  have hstart := anchor_eq_of_isPrefix hbase h
  rw [components_eq, components, hstart, List.prefix_append_right_inj] at h
  obtain ⟨steps, hsteps⟩ := h
  obtain ⟨body, tail, hpieces, hbody, -⟩ := List.filterMap_eq_append_iff.mp hsteps.symm
  exact ⟨body, tail, Prod.ext hstart.symm hpieces, hbody⟩

/-! ## 3. What follows a prefix -/

theorem components_behind (h : ∀ piece ∈ tail, '/' ∉ piece) :
    (behind tail).components = tail.filterMap component? := by
  have hhead : ∀ piece ∈ (tail.dropWhile (component? · |>.isNone)).head?,
      (component? piece).isSome := by
    intro piece hpiece
    have hnot := List.head?_dropWhile_not (component? · |>.isNone) tail
    rw [hpiece] at hnot
    exact Option.isNone_eq_false_iff.mp hnot
  unfold behind
  rw [components_ofPieces (.inr (.inr ⟨rfl, hhead⟩)), filterMap_dropWhile]
  · rfl
  · exact fun piece hpiece => h piece ((List.dropWhile_suffix _).mem hpiece)

theorem slash_not_mem_of_anchor {start : Option Component} {body : List (List Char)}
    (h : anchor p.pieces = (start, body ++ tail)) : ∀ piece ∈ tail, '/' ∉ piece := by
  intro piece hpiece
  have hsuffix := anchor_suffix p.pieces
  rw [h] at hsuffix
  exact Text.not_mem_of_mem_splitOn (hsuffix.mem (List.mem_append_right body hpiece))

/-- The components of a path are those of the prefix and those of what follows it. -/
theorem components_of_stripPrefix? (hbase : base.text ≠ "") (h : stripPrefix? base p = some q) :
    base.components ++ q.components = p.components := by
  obtain ⟨body, tail, hanchor, hbody, rfl⟩ := (stripPrefix?_eq_some_iff hbase).mp h
  rw [components_behind (slash_not_mem_of_anchor hanchor), components_eq, ← hbody,
    List.append_assoc, ← List.filterMap_append, components, hanchor]

/-- Exactly what has the components of a prefix in front has something behind it. -/
theorem exists_stripPrefix?_iff (hbase : base.text ≠ "") :
    (∃ q, stripPrefix? base p = some q) ↔ base.components <+: p.components := by
  apply Iff.intro
  · rintro ⟨q, hq⟩
    exact ⟨q.components, components_of_stripPrefix? hbase hq⟩
  · intro h
    obtain ⟨body, tail, hanchor, hbody⟩ := exists_anchor_of_isPrefix hbase h
    exact ⟨behind tail, (stripPrefix?_eq_some_iff hbase).mpr ⟨body, tail, hanchor, hbody, rfl⟩⟩

/-- What follows a prefix starts with a step. -/
theorem anchor_of_stripPrefix? (hbase : base.text ≠ "") (h : stripPrefix? base p = some q) :
    (anchor q.pieces).1 = none := by
  obtain ⟨body, tail, hanchor, -, rfl⟩ := (stripPrefix?_eq_some_iff hbase).mp h
  cases hstart : (anchor (behind tail).pieces).1 with
  | none => rfl
  | some c =>
    have hmem : c ∈ (behind tail).components := by
      rw [components, hstart]
      exact List.mem_cons_self
    rw [components_behind (slash_not_mem_of_anchor hanchor)] at hmem
    exact absurd hmem (not_mem_filterMap_of_anchor hstart _)

theorem isAbsolute_of_anchor (h : (anchor p.pieces).1 = none) : p.isAbsolute = false := by
  rw [← Bool.not_eq_true, isAbsolute_iff, components, h]
  intro hroot
  obtain ⟨piece, -, hpiece⟩ := List.mem_filterMap.mp (List.mem_of_mem_head? hroot)
  exact (component?_ne hpiece).1 rfl

/-- Joined to the prefix again, what follows it denotes the path it was taken from. -/
theorem components_join_of_stripPrefix? (hbase : base.text ≠ "")
    (h : stripPrefix? base p = some q) : (base.join q).components = p.components := by
  have hstart := anchor_of_stripPrefix? hbase h
  rw [components_join (isAbsolute_of_anchor hstart) hbase, ← components_of_stripPrefix? hbase h,
    components_eq q, hstart]
  rfl

/-! ## 4. Where it stands in the text -/

theorem joinPieces_append {front tail : List (List Char)} (hfront : front ≠ [])
    (htail : tail ≠ []) :
    joinPieces (front ++ tail) = joinPieces front ++ '/' :: joinPieces tail := by
  unfold joinPieces
  induction front with
  | nil => exact absurd rfl hfront
  | cons piece front ih =>
    have hall := List.append_ne_nil_of_right_ne_nil front htail
    rw [List.cons_append, List.intercalate_cons_of_ne_nil hall]
    by_cases hnil : front = []
    · rw [hnil, List.intercalate_singleton, List.append_assoc]
      rfl
    · rw [ih hnil, List.intercalate_cons_of_ne_nil hnil, List.append_assoc (piece ++ ['/'])]

theorem joinPieces_prefix_append (front tail : List (List Char)) :
    joinPieces front <+: joinPieces (front ++ tail) := by
  by_cases hfront : front = []
  · rw [hfront]
    exact List.nil_prefix
  by_cases htail : tail = []
  · simp [htail]
  · rw [joinPieces_append hfront htail]
    exact List.prefix_append _ _

theorem joinPieces_suffix_append (front tail : List (List Char)) :
    joinPieces tail <:+ joinPieces (front ++ tail) := by
  by_cases hfront : front = []
  · simp [hfront]
  by_cases htail : tail = []
  · rw [htail]
    exact List.nil_suffix
  · rw [joinPieces_append hfront htail]
    exact (List.suffix_cons '/' _).trans (List.suffix_append _ _)

/-- Neighbouring pieces of a path are a piece of its text. -/
theorem joinPieces_infix (h : pieces <:+: p.pieces) : joinPieces pieces <:+: p.text.toList := by
  obtain ⟨front, tail, hpieces⟩ := h
  rw [← joinPieces_pieces, ← hpieces]
  exact (joinPieces_suffix_append front pieces).isInfix.trans
    (joinPieces_prefix_append (front ++ pieces) tail).isInfix

/-- The text of what follows a prefix is cut out of the text of the path. -/
theorem text_infix_of_stripPrefix? (hbase : base.text ≠ "") (h : stripPrefix? base p = some q) :
    q.text.toList <:+: p.text.toList := by
  obtain ⟨body, tail, hanchor, -, rfl⟩ := (stripPrefix?_eq_some_iff hbase).mp h
  have hsuffix := anchor_suffix p.pieces
  rw [hanchor] at hsuffix
  show (String.ofList (joinPieces (trimPieces (tail.dropWhile _)))).toList <:+: _
  rw [String.toList_ofList]
  apply joinPieces_infix
  exact (trimPieces_prefix_self _).isInfix.trans
    ((List.dropWhile_suffix _).trans ((List.suffix_append body tail).trans hsuffix)).isInfix

/-! ## 5. Siblings -/

/-- A name that only begins with the last name of a directory does not lead below it. -/
theorem not_prefix_of_longer_name {front rest : List Component} {name more : String}
    (hbase : base.components = front ++ [.name name]) (hmore : more ≠ "")
    (hp : p.components = front ++ .name (name ++ more) :: rest) :
    ¬ base.components <+: p.components := by
  rw [hbase, hp, List.prefix_append_right_inj, List.cons_prefix_cons, Component.name.injEq]
  rintro ⟨hname, -⟩
  have htext := congrArg String.toList hname
  rw [String.toList_append, List.self_eq_append_right, String.toList_eq_nil_iff] at htext
  exact hmore htext

end Path

namespace Place

/-- Wherever a file is shown, it is by one text, a piece of its path.  If the components of the root
stand first in the path, it is a relative path of the other components, which denotes the file again
when it is joined to the root.  Otherwise it is the path as it is, as for a sibling of the root with
a name that only begins like that of the root. -/
theorem file_behind_root_or_unchanged {root : Path} (hroot : root.isAbsolute = true) (p : Path) :
    ∃ shown : Path,
      (root.components <+: p.components →
        shown.isAbsolute = false ∧ root.components ++ shown.components = p.components ∧
          (root.join shown).components = p.components) ∧
      (¬ root.components <+: p.components → shown = p) ∧
      (∀ front name more rest, root.components = front ++ [.name name] → more ≠ "" →
        p.components = front ++ .name (name ++ more) :: rest → shown = p) ∧
      shown.text.toList <:+: p.text.toList ∧
      p.relativeTo root = shown.text ∧
      (∀ position, (Place.of root p position).file = shown.text) ∧
      (∀ report : CompileReport, report.file = p → (report.response root).file = shown.text) ∧
      (∀ error, (CompileResponse.failed root p error).file = shown.text) := by
  have htext : root.text ≠ "" := by
    intro hempty
    rw [Path.isAbsolute, hempty] at hroot
    cases hroot
  have hprefix := @Path.exists_stripPrefix?_iff root p htext
  cases hstrip : root.stripPrefix? p with
  | none =>
    have hshown : p.relativeTo root = p.text := by
      rw [Path.relativeTo, hstrip]
      rfl
    refine ⟨p, ?_, fun _ => rfl, fun _ _ _ _ _ _ _ => rfl, List.infix_refl _, hshown,
      fun _ => hshown, ?_, fun _ => hshown⟩
    · intro hbelow
      obtain ⟨q, hq⟩ := hprefix.mpr hbelow
      rw [hstrip] at hq
      cases hq
    · rintro report rfl
      exact hshown
  | some q =>
    have hbelow := hprefix.mp ⟨q, hstrip⟩
    have hshown : p.relativeTo root = q.text := by
      rw [Path.relativeTo, hstrip]
      rfl
    refine ⟨q, fun _ => ⟨?_, ?_, ?_⟩, fun hnot => absurd hbelow hnot, ?_, ?_, hshown,
      fun _ => hshown, ?_, fun _ => hshown⟩
    · exact Path.isAbsolute_of_anchor (Path.anchor_of_stripPrefix? htext hstrip)
    · exact Path.components_of_stripPrefix? htext hstrip
    · exact Path.components_join_of_stripPrefix? htext hstrip
    · intro front name more rest hlast hmore hp
      exact absurd hbelow (Path.not_prefix_of_longer_name hlast hmore hp)
    · exact Path.text_infix_of_stripPrefix? htext hstrip
    · rintro report rfl
      exact hshown

/-- Below a root that is spelled untidily, and beside it. -/
theorem file_behind_root_or_unchanged_untidy :
    let root : Path := ⟨"/w//rules/./"⟩
    let p : Path := ⟨"/w/rules//a/../b.yara/"⟩
    let sibling : Path := ⟨"/w/rules2/b.yara"⟩
    root.isAbsolute = true ∧ root.components <+: p.components ∧
      (Place.of root p ⟨0, 4⟩).file = "a/../b.yara" ∧
      (root.join ⟨"a/../b.yara"⟩).components = p.components ∧
      (Place.of root sibling ⟨0, 4⟩).file = "/w/rules2/b.yara" := by
  intro root p sibling
  have hroot : root.isAbsolute = true := by decide
  have hbelow : root.components <+: p.components := by decide +kernel
  have hfile : p.relativeTo root = "a/../b.yara" := by decide +kernel
  obtain ⟨shown, hinside, -, -, -, hrelative, hplace, -⟩ := file_behind_root_or_unchanged hroot p
  obtain rfl : shown = ⟨"a/../b.yara"⟩ := congrArg Path.mk (hrelative.symm.trans hfile)
  obtain ⟨other, -, -, hsibling, -, -, hother, -⟩ := file_behind_root_or_unchanged hroot sibling
  have hunchanged : other = sibling :=
    hsibling [.root, .name "w"] "rules" "2" [.name "b.yara"] (by decide +kernel) (by decide)
      (by decide +kernel)
  refine ⟨hroot, hbelow, hplace _, (hinside hbelow).2.2, ?_⟩
  rw [hother, hunchanged]

end Place

end RuleLens
