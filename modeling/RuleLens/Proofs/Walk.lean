import RuleLens.Discovery
import RuleLens.Proofs.Tree

/-!
# Walks through a file tree

A walk meets what a depth-first search meets that goes into directories by their names: an entry
before what lies below it, the entries of one directory in the order of their names, and nothing
below an entry that is passed over.  Names decide before lengths in the order of entries, so this is
the order in which a tree lists them.
-/

namespace RuleLens

variable {t : FileTree} {w : World} {f : Filter} {root : Path} {dir names rel : Names}
  {node : Node} {skip : Names → Bool} {depth : Nat}

/-! ## 1. Depth-first searches -/

namespace FileTree

/-- The names of the entries that a directory holds, in order. -/
def children (t : FileTree) (dir : Names) : List String :=
  (t.below dir).filterMap fun entry =>
    match entry.1 with
    | [name] => some name
    | _ => none

theorem mem_children {name : String} : name ∈ t.children dir ↔ (t.get? (dir ++ [name])).isSome := by
  unfold children
  rw [List.mem_filterMap]
  apply Iff.intro
  · rintro ⟨⟨rel, node⟩, hentry, hname⟩
    split at hname
    · rename_i heq
      cases hname
      obtain ⟨-, hget⟩ := mem_below.mp hentry
      change rel = [name] at heq
      rw [heq] at hget
      rw [hget]
      rfl
    · cases hname
  · intro h
    obtain ⟨node, hnode⟩ := Option.isSome_iff_exists.mp h
    exact ⟨([name], node), mem_below.mpr ⟨List.cons_ne_nil name [], hnode⟩, rfl⟩

theorem pairwise_children (t : FileTree) (dir : Names) :
    (t.children dir).Pairwise fun a b => compare a b = .lt := by
  unfold children
  rw [List.pairwise_filterMap]
  refine (pairwise_below t dir).imp ?_
  rintro ⟨a, node⟩ ⟨b, node'⟩ hlt x hx y hy
  dsimp only at hlt hx hy
  split at hx
  · split at hy
    · cases hx
      cases hy
      rw [List.compare_cons_cons] at hlt
      simpa using hlt
    · cases hy
  · cases hx

/-- What a search from the entry `rel` of a directory meets, at most `depth` levels further down.
It goes by the names that a directory holds, and passes over some entries with all below them. -/
def depthFirst (t : FileTree) (dir : Names) (skip : Names → Bool) : Nat → Names → List Names
  | 0, _ => []
  | depth + 1, rel =>
    (t.children (dir ++ rel)).flatMap fun name =>
      if skip (rel ++ [name]) then []
      else (rel ++ [name]) :: t.depthFirst dir skip depth (rel ++ [name])

/-- What holds on the way to an entry holds at the first step and behind it. -/
theorem forall_prefix_cons_iff {P : Names → Prop} {name : String} {more : Names} :
    (∀ above, above ≠ [] → above <+: name :: more → P above) ↔
      P [name] ∧ ∀ above, above ≠ [] → above <+: more → P (name :: above) := by
  apply Iff.intro
  · intro h
    exact ⟨h [name] (List.cons_ne_nil name []) (by simp), fun above _ hprefix =>
      h (name :: above) (List.cons_ne_nil name above) (by simpa using hprefix)⟩
  · rintro ⟨hfirst, hrest⟩ above hne hprefix
    rcases List.prefix_cons_iff.mp hprefix with hnil | ⟨rest, rfl, hbelow⟩
    · exact absurd hnil hne
    · by_cases hnil : rest = []
      · rw [hnil]
        exact hfirst
      · exact hrest rest hnil hbelow

/-- A search meets what no entry on the way is passed over to. -/
theorem WellFormed.mem_depthFirst (h : t.WellFormed) {x : Names} :
    x ∈ t.depthFirst dir skip depth rel ↔
      ∃ more, x = rel ++ more ∧ more ≠ [] ∧ more.length ≤ depth ∧ (t.get? (dir ++ x)).isSome ∧
        ∀ above, above ≠ [] → above <+: more → skip (rel ++ above) = false := by
  induction depth generalizing rel with
  | zero =>
    apply iff_of_false List.not_mem_nil
    rintro ⟨more, -, hmore, hlength, -⟩
    exact hmore (List.length_eq_zero_iff.mp (Nat.le_zero.mp hlength))
  | succ depth ih =>
    rw [depthFirst, List.mem_flatMap]
    simp only [List.mem_ite_nil_left, List.mem_cons, ih, mem_children, Bool.not_eq_true,
      List.append_assoc, List.singleton_append]
    apply Iff.intro
    · rintro ⟨name, hname, hskip, rfl | ⟨more, rfl, -, hlength, hentry, habove⟩⟩
      · exact ⟨[name], rfl, List.cons_ne_nil name [], Nat.succ_le_succ (Nat.zero_le depth), hname,
          forall_prefix_cons_iff.mpr ⟨hskip, fun above hne hprefix =>
            absurd (List.prefix_nil.mp hprefix) hne⟩⟩
      · exact ⟨name :: more, rfl, List.cons_ne_nil name more, Nat.succ_le_succ hlength, hentry,
          forall_prefix_cons_iff.mpr ⟨hskip, habove⟩⟩
    · rintro ⟨more, rfl, hmore, hlength, hentry, habove⟩
      obtain ⟨name, more, rfl⟩ := List.exists_cons_of_ne_nil hmore
      obtain ⟨hskip, habove⟩ := forall_prefix_cons_iff.mp habove
      have hname : (t.get? (dir ++ rel ++ [name] ++ more)).isSome := by simpa using hentry
      refine ⟨name, by simpa using h.isSome_of_append hname, hskip, ?_⟩
      by_cases hnil : more = []
      · exact .inl (by rw [hnil])
      · exact .inr ⟨more, rfl, hnil, Nat.le_of_succ_le_succ hlength, hentry, habove⟩

/-- Whatever is met comes strictly behind what was met before. -/
theorem WellFormed.pairwise_depthFirst (h : t.WellFormed) (dir : Names) (skip : Names → Bool)
    (depth : Nat) (rel : Names) :
    (t.depthFirst dir skip depth rel).Pairwise fun a b => compare a b = .lt := by
  induction depth generalizing rel with
  | zero => exact .nil
  | succ depth ih =>
    rw [depthFirst, List.pairwise_flatMap]
    refine ⟨fun name _ => ?_, ?_⟩
    · split
      · exact .nil
      refine List.pairwise_cons.mpr ⟨fun x hx => ?_, ih _⟩
      -- a directory comes before what lies below it
      obtain ⟨more, rfl, hmore, -⟩ := h.mem_depthFirst.mp hx
      obtain ⟨first, more, rfl⟩ := List.exists_cons_of_ne_nil hmore
      have hnil := compare_append (rel ++ [name]) [] (first :: more)
      rw [List.append_nil] at hnil
      rw [hnil]
      rfl
    · refine (pairwise_children t (dir ++ rel)).imp ?_
      intro a b hab x hx y hy
      -- names of one directory decide before anything below these entries
      have hhead : ∀ name, ∀ z ∈ (if skip (rel ++ [name]) then []
          else (rel ++ [name]) :: t.depthFirst dir skip depth (rel ++ [name])),
          ∃ more, z = rel ++ name :: more := by
        intro name z hz
        rw [List.mem_ite_nil_left, List.mem_cons] at hz
        rcases hz.2 with rfl | hz
        · exact ⟨[], rfl⟩
        · obtain ⟨more, rfl, -⟩ := h.mem_depthFirst.mp hz
          exact ⟨more, by simp⟩
      obtain ⟨more, rfl⟩ := hhead a x hx
      obtain ⟨more', rfl⟩ := hhead b y hy
      rw [compare_append, List.compare_cons_cons, hab]
      rfl

theorem isDirectory_of_get? (h : t.get? names = some node) :
    t.isDirectory names = !node.isFile := by
  unfold isDirectory
  rw [h]
  cases node <;> rfl

/-- No entry has more names than this. -/
theorem exists_depth (t : FileTree) (dir : Names) :
    ∃ depth, ∀ rel, (t.get? (dir ++ rel)).isSome → rel.length ≤ depth := by
  refine ⟨((t.below dir).map fun entry => entry.1.length).max?.getD 0, ?_⟩
  intro rel h
  obtain ⟨node, hnode⟩ := Option.isSome_iff_exists.mp h
  by_cases hrel : rel = []
  · rw [hrel]
    exact Nat.zero_le _
  · apply List.le_max?_getD_of_mem
    exact List.mem_map.mpr ⟨(rel, node), mem_below.mpr ⟨hrel, hnode⟩, rfl⟩

end FileTree

namespace Discovery

/-! ## 2. Walks -/

/-- Whether a walk passes over the entry `rel` below the directory `names`. -/
def skipsAt [Automaton.Engine] (w : World) (f : Filter) (root : Path) (names rel : Names) : Bool :=
  skips (IgnoreRules.ofWorld w f.versionControl) f.includeHidden (names ++ rel) (pathOf root rel)
    (w.files.isDirectory (names ++ rel))

theorem mem_passedOver [Automaton.Engine] :
    rel ∈ passedOver w f root names ↔
      rel ≠ [] ∧ (w.files.get? (names ++ rel)).isSome ∧ skipsAt w f root names rel = true := by
  unfold passedOver skipsAt
  rw [List.mem_filterMap]
  apply Iff.intro
  · rintro ⟨⟨other, node⟩, hentry, hskip⟩
    rw [FileTree.mem_below] at hentry
    simp only [Option.ite_none_right_eq_some, Option.some.injEq] at hskip
    obtain ⟨hskip, rfl⟩ := hskip
    rw [FileTree.isDirectory_of_get? hentry.2, hentry.2]
    exact ⟨hentry.1, rfl, hskip⟩
  · rintro ⟨hrel, hsome, hskip⟩
    obtain ⟨node, hnode⟩ := Option.isSome_iff_exists.mp hsome
    rw [FileTree.isDirectory_of_get? hnode] at hskip
    exact ⟨(rel, node), FileTree.mem_below.mpr ⟨hrel, hnode⟩, if_pos hskip⟩

/-- A walk meets the entries to which nothing on the way is passed over. -/
theorem mem_walked [Automaton.Engine] (h : w.files.WellFormed) :
    (rel, node) ∈ walked w f root names ↔
      rel ≠ [] ∧ w.files.get? (names ++ rel) = some node ∧
        ∀ above, above ≠ [] → above <+: rel → skipsAt w f root names above = false := by
  unfold walked
  simp only [List.mem_filter, FileTree.mem_below, Bool.not_eq_true', List.any_eq_false,
    List.isPrefixOf_iff_prefix, mem_passedOver, and_assoc]
  apply and_congr_right
  intro _
  apply and_congr_right
  intro hnode
  apply Iff.intro
  · intro hout above hne hprefix
    obtain ⟨rest, rfl⟩ := hprefix
    have hentry : (w.files.get? (names ++ above ++ rest)).isSome := by
      rw [List.append_assoc, hnode]
      rfl
    have hsome : (w.files.get? (names ++ above)).isSome := h.isSome_of_append hentry
    rw [← Bool.not_eq_true]
    exact fun hskip => hout above ⟨hne, hsome, hskip⟩ (List.prefix_append above rest)
  · rintro habove out ⟨hne, -, hskip⟩ hprefix
    rw [habove out hne hprefix] at hskip
    cases hskip

theorem pairwise_walked [Automaton.Engine] (w : World) (f : Filter) (root : Path) (names : Names) :
    ((walked w f root names).map (·.1)).Pairwise fun a b => compare a b = .lt := by
  rw [List.pairwise_map]
  exact (FileTree.pairwise_below w.files names).filter _

/-- Entries that stand strictly one behind the other stand in one order only. -/
theorem eq_of_pairwise_lt {found found' : List Names}
    (h : found.Pairwise fun a b => compare a b = .lt)
    (h' : found'.Pairwise fun a b => compare a b = .lt) (hmem : ∀ x, x ∈ found ↔ x ∈ found') :
    found = found' := by
  have hne : ∀ {a b : Names}, compare a b = .lt → a ≠ b := by
    rintro a _ hlt rfl
    rw [Std.ReflOrd.compare_self] at hlt
    cases hlt
  have hperm : found.Perm found' :=
    (List.perm_ext_iff_of_nodup (h.imp hne) (h'.imp hne)).mpr hmem
  apply hperm.eq_of_pairwise _ h h'
  intro a b _ _ hab hba
  have hswap : compare a b = (compare b a).swap := Std.OrientedCmp.eq_swap
  rw [hswap, hba] at hab
  cases hab

/-- A walk is a depth-first search, whose depth does not count once it is large enough. -/
theorem exists_walked_eq_depthFirst [Automaton.Engine] (h : w.files.WellFormed) (f : Filter)
    (root : Path) (names : Names) :
    ∃ least, ∀ depth, least ≤ depth →
      (walked w f root names).map (·.1) =
        w.files.depthFirst names (skipsAt w f root names) depth [] := by
  obtain ⟨least, hleast⟩ := w.files.exists_depth names
  refine ⟨least, fun depth hdepth => ?_⟩
  apply eq_of_pairwise_lt (pairwise_walked w f root names) (h.pairwise_depthFirst _ _ _ _)
  intro rel
  rw [h.mem_depthFirst, List.mem_map]
  apply Iff.intro
  · rintro ⟨⟨rel, node⟩, hwalked, rfl⟩
    obtain ⟨hrel, hnode, habove⟩ := (mem_walked h).mp hwalked
    have hsome : (w.files.get? (names ++ rel)).isSome := by
      rw [hnode]
      rfl
    exact ⟨rel, rfl, hrel, Nat.le_trans (hleast rel hsome) hdepth, hsome, habove⟩
  · rintro ⟨rel, rfl, hrel, -, hsome, habove⟩
    obtain ⟨node, hnode⟩ := Option.isSome_iff_exists.mp hsome
    exact ⟨(rel, node), (mem_walked h).mpr ⟨hrel, hnode, habove⟩, rfl⟩

end Discovery

end RuleLens
