import RuleLens.Proofs.Walk

/-!
# What a discovery passes over

Three things keep a file from being found: names that are ignored wherever they stand, the ignore
files that a walk heeds, and the patterns of the project.  The first two keep all from being found
that lies below a directory; the patterns of the project are asked about the file alone.
-/

namespace RuleLens

variable {w : World} {f : Filter} {root : Path} {names rel found : Names} {name : String}
  {limit : Nat}

/-! ## 1. Names that are ignored -/

/-- The name is ignored wherever it stands: it is on the list, or ends like an entry of the list
with a star in front, or it is hidden. -/
def Filter.Excludes (f : Filter) (name : String) : Prop :=
  name ∈ f.ignoredNames ∨
    (∃ ending, "*" ++ ending ∈ f.ignoredNames ∧ ending.toList <:+ name.toList) ∨
    (f.includeHidden = false ∧ name.toList.head? = some '.')

theorem Filter.matchesName_eq_true_iff {pattern : String} :
    matchesName pattern name = true ↔
      pattern = name ∨ ∃ ending, pattern = "*" ++ ending ∧ ending.toList <:+ name.toList := by
  unfold matchesName
  split
  · rename_i ending hpattern
    rw [List.isSuffixOf_iff_suffix]
    apply Iff.intro
    · intro h
      refine .inr ⟨String.ofList ending, ?_, by rw [String.toList_ofList]; exact h⟩
      apply String.toList_inj.mp
      simp [hpattern]
    · rintro (rfl | ⟨ending', rfl, h⟩)
      · rw [hpattern]
        exact List.suffix_cons '*' ending
      · rw [String.toList_append] at hpattern
        cases hpattern
        exact h
  · rename_i hstar
    rw [beq_iff_eq]
    apply Iff.intro
    · exact .inl
    · rintro (h | ⟨ending, rfl, -⟩)
      · exact h
      · exact absurd (String.toList_append ..) (hstar ending.toList)

theorem Filter.excludesName_eq_true_iff : f.excludesName name = true ↔ f.Excludes name := by
  unfold excludesName Excludes isHidden
  simp only [Bool.or_eq_true, List.any_eq_true, matchesName_eq_true_iff, Bool.and_eq_true,
    Bool.not_eq_true', decide_eq_true_eq]
  apply Iff.intro
  · rintro (⟨pattern, hmem, rfl | ⟨ending, rfl, h⟩⟩ | h)
    · exact .inl hmem
    · exact .inr (.inl ⟨ending, hmem, h⟩)
    · exact .inr (.inr h)
  · rintro (hmem | ⟨ending, hmem, h⟩ | h)
    · exact .inl ⟨name, hmem, .inl rfl⟩
    · exact .inl ⟨_, hmem, .inr ⟨ending, rfl, h⟩⟩
    · exact .inr h

namespace Discovery

open RuleLens.Path (IsName ofNames)

/-! ## 2. Entries by their paths -/

theorem text_ne_empty_of_resolve (hroot : w.resolve root = .ok names) : root.text ≠ "" :=
  (FileTree.checkPath_eq_ok_iff.mp (FileTree.resolve_eq_ok_iff.mp hroot).1).1

theorem pathOf_nil (root : Path) : pathOf root [] = root := rfl

theorem pathOf_of_ne_nil (root : Path) (h : rel ≠ []) :
    pathOf root rel = root.join (ofNames rel) := by
  unfold pathOf
  rw [if_neg (by simpa using h)]
  rfl

theorem isName_of_entry (h : w.files.WellFormed) (hentry : (w.files.get? (names ++ rel)).isSome) :
    ∀ name ∈ rel, IsName name := fun _ hname =>
  (h.isName_of_mem hentry (List.mem_append_right names hname)).1

/-- The path of an entry leads there, unless it is longer than the system takes. -/
theorem resolve_pathOf (h : w.files.WellFormed) (hroot : w.resolve root = .ok names)
    (hentry : (w.files.get? (names ++ rel)).isSome) :
    w.resolve (pathOf root rel) = .ok found ↔
      found = names ++ rel ∧ (pathOf root rel).text.utf8ByteSize ≤ FileTree.maxPathBytes := by
  by_cases hrel : rel = []
  · rw [hrel, pathOf_nil, List.append_nil, hroot]
    have hsize := FileTree.checkPath_eq_ok_iff.mp (FileTree.resolve_eq_ok_iff.mp hroot).1
    apply Iff.intro
    · rintro ⟨⟩
      exact ⟨rfl, hsize.2.2⟩
    · rintro ⟨rfl, -⟩
      rfl
  · rw [pathOf_of_ne_nil root hrel]
    exact h.resolve_join hroot hrel hentry

theorem node?_pathOf (h : w.files.WellFormed) (hroot : w.resolve root = .ok names)
    (hentry : (w.files.get? (names ++ rel)).isSome)
    (hsize : (pathOf root rel).text.utf8ByteSize ≤ FileTree.maxPathBytes) :
    w.node? (pathOf root rel) = w.files.get? (names ++ rel) := by
  unfold World.node?
  rw [(resolve_pathOf h hroot hentry).mpr ⟨rfl, hsize⟩]

/-- A path names a file if the entry is one and the system takes the path. -/
theorem isFile_pathOf (h : w.files.WellFormed) (hroot : w.resolve root = .ok names)
    (hentry : (w.files.get? (names ++ rel)).isSome) :
    w.isFile (pathOf root rel) = true ↔
      (∃ content executable, w.files.get? (names ++ rel) = some (.file content executable)) ∧
        (pathOf root rel).text.utf8ByteSize ≤ FileTree.maxPathBytes := by
  unfold World.isFile
  by_cases hsize : (pathOf root rel).text.utf8ByteSize ≤ FileTree.maxPathBytes
  · rw [node?_pathOf h hroot hentry hsize]
    cases hnode : w.files.get? (names ++ rel) with
    | none => simp
    | some node => cases node <;> simp [Node.isFile, hsize]
  · have hnone : w.node? (pathOf root rel) = none := by
      unfold World.node?
      split
      · rename_i there hthere
        exact absurd ((resolve_pathOf h hroot hentry).mp hthere).2 hsize
      · rfl
    rw [hnone]
    simp [hsize]

/-- Seen from the root, the path of an entry is that of its names. -/
theorem relative_pathOf (hroot : root.text ≠ "") (hnames : ∀ name ∈ rel, IsName name) :
    (root.stripPrefix? (pathOf root rel)).getD (pathOf root rel) = ofNames rel := by
  by_cases hrel : rel = []
  · rw [hrel, pathOf_nil, Path.stripPrefix?_self hroot]
    rfl
  · rw [pathOf_of_ne_nil root hrel, Path.stripPrefix?_join hroot (Path.isTight_ofNames hrel hnames)]
    rfl

theorem names_ofNames (hnames : ∀ name ∈ rel, IsName name) :
    (ofNames rel).components.filterMap Component.name? = rel := by
  by_cases hrel : rel = []
  · rw [hrel]
    rfl
  · rw [Path.components_ofNames hrel hnames, List.filterMap_map]
    exact List.filterMap_some

theorem isIgnoredBy_pathOf (patterns : IgnorePatterns) (hroot : root.text ≠ "")
    (hnames : ∀ name ∈ rel, IsName name) :
    isIgnoredBy patterns w f root (pathOf root rel) =
      (rel.any f.excludesName ||
        projectVerdict patterns root (ofNames rel) (w.isDirectory (pathOf root rel)) =
          .ignored) := by
  unfold isIgnoredBy
  simp only [relative_pathOf hroot hnames, names_ofNames hnames]

theorem exists_of_mem_met [Automaton.Engine] (h : rel ∈ met w f root) :
    ∃ names, w.resolve root = .ok names ∧
      (rel ≠ [] → ∃ node, (rel, node) ∈ walked w f root names) := by
  unfold met at h
  split at h
  · exact absurd h List.not_mem_nil
  · rename_i names hroot
    refine ⟨names, hroot, fun hrel => ?_⟩
    rcases List.mem_cons.mp h with hnil | hwalked
    · exact absurd hnil hrel
    · obtain ⟨⟨other, node⟩, hentry, rfl⟩ := List.mem_map.mp hwalked
      exact ⟨node, hentry⟩

theorem isSome_of_isFile (hroot : w.resolve root = .ok names) (hfile : w.isFile root = true) :
    (w.files.get? names).isSome := by
  unfold World.isFile World.node? at hfile
  rw [hroot] at hfile
  exact Option.isSome_of_any hfile

/-- What is met and found is an entry. -/
theorem exists_of_isFound [Automaton.Engine] {patterns : IgnorePatterns} (h : w.files.WellFormed)
    (hmet : rel ∈ met w f root) (hfound : isFound patterns w f root rel = true) :
    ∃ names, w.resolve root = .ok names ∧ (w.files.get? (names ++ rel)).isSome := by
  obtain ⟨names, hroot, hwalked⟩ := exists_of_mem_met hmet
  refine ⟨names, hroot, ?_⟩
  by_cases hrel : rel = []
  · unfold isFound at hfound
    simp only [Bool.and_eq_true, hrel, pathOf_nil] at hfound
    rw [hrel, List.append_nil]
    exact isSome_of_isFile hroot hfound.1.1
  · obtain ⟨node, hnode⟩ := hwalked hrel
    rw [((mem_walked h).mp hnode).2.1]
    rfl

/-! ## 3. Above what is found -/

/-- A path that the system takes stands behind ones that it takes as well. -/
theorem utf8ByteSize_pathOf_append {above behind : Names} (hroot : root.text ≠ "")
    (habove : above ≠ []) (hnames : ∀ name ∈ above ++ behind, IsName name) :
    (pathOf root above).text.utf8ByteSize ≤ (pathOf root (above ++ behind)).text.utf8ByteSize := by
  rw [pathOf_of_ne_nil root habove,
    pathOf_of_ne_nil root (List.append_ne_nil_of_left_ne_nil habove behind)]
  exact Path.utf8ByteSize_join_append hroot habove hnames

/-- What is found below the root is a file under a path that the system takes, no name of which is
ignored, and which no walk passes over on the way. -/
theorem exists_of_mem_find [Automaton.Engine] (h : w.files.WellFormed)
    (hfound : rel ∈ find w f root limit) (hrel : rel ≠ []) :
    ∃ names, w.resolve root = .ok names ∧ (w.files.get? (names ++ rel)).isSome ∧
      (pathOf root rel).text.utf8ByteSize ≤ FileTree.maxPathBytes ∧
      (∀ name ∈ rel, f.excludesName name = false) ∧
      ∀ above, above ≠ [] → above <+: rel → skipsAt w f root names above = false := by
  obtain ⟨hmet, his⟩ := List.mem_filter.mp (List.mem_of_mem_take hfound)
  obtain ⟨names, hroot, hwalked⟩ := exists_of_mem_met hmet
  obtain ⟨node, hwalked⟩ := hwalked hrel
  obtain ⟨-, hnode, hskips⟩ := (mem_walked h).mp hwalked
  have hentry : (w.files.get? (names ++ rel)).isSome := by
    rw [hnode]
    rfl
  unfold isFound at his
  simp only [Bool.and_eq_true, Bool.not_eq_true'] at his
  obtain ⟨⟨hfile, -⟩, hignored⟩ := his
  rw [isIgnoredBy_pathOf _ (text_ne_empty_of_resolve hroot) (isName_of_entry h hentry),
    Bool.or_eq_false_iff, List.any_eq_false] at hignored
  exact ⟨names, hroot, hentry, ((isFile_pathOf h hroot hentry).mp hfile).2,
    fun name hname => Bool.eq_false_iff.mpr (hignored.1 name hname), hskips⟩

/-- A directory between the root and a file that is found has no name that is ignored, and the walk
does not pass over it.  It is still ignored itself if the patterns of the project say so, since only
the file was looked up there. -/
theorem ignored_above_found [Automaton.Engine] {above behind : Names} (h : w.files.WellFormed)
    (hfound : above ++ behind ∈ find w f root limit) (habove : above ≠ []) (hbehind : behind ≠ []) :
    w.isDirectory (pathOf root above) = true ∧
      (∀ name ∈ above, ¬ f.Excludes name) ∧
      (∃ names, w.resolve root = .ok names ∧ skipsAt w f root names above = false) ∧
      (isIgnored w f root (pathOf root above) = true ↔
        projectVerdict (projectPatterns w root) root (ofNames above) true = .ignored) := by
  obtain ⟨names, hroot, hentry, hsize, hexcluded, hskips⟩ :=
    exists_of_mem_find h hfound (List.append_ne_nil_of_left_ne_nil habove behind)
  have htext := text_ne_empty_of_resolve hroot
  have hnames := isName_of_entry h hentry
  -- the directory is reached by a shorter path than the file
  have hshorter := Nat.le_trans (utf8ByteSize_pathOf_append htext habove hnames) hsize
  rw [← List.append_assoc] at hentry
  have hdirectory : w.isDirectory (pathOf root above) = true := by
    unfold World.isDirectory
    rw [node?_pathOf h hroot (h.isSome_of_append hentry) hshorter,
      FileTree.isDirectory_iff.mp (h.isDirectory_of_append hbehind hentry)]
    rfl
  have hnone : above.any f.excludesName = false :=
    List.any_eq_false.mpr fun name hname =>
      Bool.eq_false_iff.mp (hexcluded name (List.mem_append_left behind hname))
  refine ⟨hdirectory, ?_, ⟨names, hroot, hskips above habove (List.prefix_append above behind)⟩, ?_⟩
  · intro name hname hexcludes
    have htrue := Filter.excludesName_eq_true_iff.mpr hexcludes
    rw [hexcluded name (List.mem_append_left behind hname)] at htrue
    cases htrue
  · have hnamesAbove : ∀ name ∈ above, IsName name := fun name hname =>
      hnames name (List.mem_append_left behind hname)
    unfold isIgnored
    rw [isIgnoredBy_pathOf _ htext hnamesAbove, hdirectory, hnone, Bool.false_or,
      decide_eq_true_iff]

/-- A project whose patterns ignore a directory that holds a rule file. -/
def generated : World where
  files :=
    ((((FileTree.empty.insert ["w"] .directory).insert ["w", ".yaralens"] .directory).insert
      ["w", ".yaralens", "ignore"] (.file "gen/\n".toUTF8 false)).insert
      ["w", "gen"] .directory).insert ["w", "gen", "x.yara"] (.file ByteArray.empty false)
  cwd := []
  env := []
  home := ⟨"/"⟩
  programs := []

theorem ignored_above_found_generated :
    find generated {} ⟨"/w"⟩ 10 = [["gen", "x.yara"]] ∧
      isIgnored generated {} ⟨"/w"⟩ ⟨"/w/gen"⟩ = true := by
  have hfound : find generated {} ⟨"/w"⟩ 10 = [["gen", "x.yara"]] := by decide +kernel
  have hmem : ["gen"] ++ ["x.yara"] ∈ find generated {} ⟨"/w"⟩ 10 := by
    rw [hfound]
    exact List.mem_singleton_self _
  obtain ⟨-, -, -, hignored⟩ :=
    ignored_above_found (by decide +kernel) hmem (by decide) (by decide)
  exact ⟨hfound, hignored.mpr (by decide +kernel)⟩

end Discovery

end RuleLens
