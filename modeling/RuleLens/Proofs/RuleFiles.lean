import RuleLens.Proofs.Batch
import RuleLens.Proofs.Discovery
import RuleLens.Proofs.World

/-!
# What a discovery finds

Where no ignore file says anything, the files found are the first ones, in the order of their paths,
whose names say that they are rule files.  A file is left out all the same if the path to it is
longer than the system takes.
-/

namespace RuleLens.Discovery

open RuleLens.Path (IsName ofNames)

variable {w : World} {f : Filter} {root : Path} {names rel : Names}

/-! ## 1. Ignore files without patterns -/

/-- No ignore file says anything about what a discovery below the directory `names` meets: those
above that directory, in it and below it hold no pattern, nor do those of the user and the
project. -/
structure NoPatterns [Automaton.Engine] (w : World) (f : Filter) (root : Path) (names : Names) :
    Prop where
  files : ∀ kind ∈ (IgnoreRules.ofWorld w f.versionControl).files, ∀ file ∈ kind,
    file.1 <+: names ∨ names <+: file.1 → file.2 = []
  user : (IgnoreRules.ofWorld w f.versionControl).user = []
  project : projectPatterns w root = []

theorem load_of_node?_eq_none [Automaton.Engine] {p : Path} (h : w.node? p = none) :
    IgnoreFiles.load w p = [] := by
  obtain ⟨cause, hcause⟩ := World.exists_read_of_node?_eq_none h
  unfold IgnoreFiles.load
  rw [hcause]

theorem mem_holders_iff {t : FileTree} {name : String} {entry : Names × Node} :
    entry ∈ IgnoreFiles.holders t name ↔ t.get? (entry.1 ++ [name]) = some entry.2 := by
  rw [FileTree.get?_concat, ← Std.TreeMap.mem_toList_iff_getElem?_eq_some]
  unfold IgnoreFiles.holders
  rw [List.mem_filterMap]
  apply Iff.intro
  · rintro ⟨⟨names, node⟩, hmem, hsome⟩
    dsimp only at hsome
    split at hsome
    · rename_i hlast
      obtain ⟨dir, rfl⟩ := List.getLast?_eq_some_iff.mp hlast
      cases hsome
      rw [List.dropLast_concat]
      exact hmem
    · cases hsome
  · intro hmem
    refine ⟨(entry.1 ++ [name], entry.2), hmem, ?_⟩
    simp only [List.getLast?_concat, if_true, List.dropLast_concat]

theorem get?_concat_of_holders_eq_nil {t : FileTree} {name : String}
    (h : IgnoreFiles.holders t name = []) (dir : Names) : t.get? (dir ++ [name]) = none := by
  apply Option.eq_none_iff_forall_ne_some.mpr
  intro node hnode
  have hmem : (dir, node) ∈ IgnoreFiles.holders t name := mem_holders_iff.mpr hnode
  rw [h] at hmem
  exact absurd hmem List.not_mem_nil

theorem exists_of_mem_named [Automaton.Engine] {t : FileTree} {name : String}
    {file : Names × IgnorePatterns} (h : file ∈ IgnoreFiles.named t name) :
    ∃ content executable, t.get? (file.1 ++ [name]) = some (.file content executable) := by
  obtain ⟨⟨dir, node⟩, hmem, hsome⟩ := List.mem_filterMap.mp (List.mem_mergeSort.mp h)
  cases node with
  | directory => cases hsome
  | file content executable =>
    cases hsome
    exact ⟨content, executable, mem_holders_iff.mp hmem⟩

theorem exists_of_mem_ofRepositories [Automaton.Engine] {file : Names × IgnorePatterns}
    (h : file ∈ IgnoreFiles.ofRepositories w) :
    (∃ content executable,
      w.files.get? (file.1 ++ [".git"]) = some (.file content executable)) ∨
    w.files.get? (file.1 ++ [".git"]) = some .directory ∧
      file.2 = IgnoreFiles.load w
        ((⟨"/" ++ "/".intercalate (file.1 ++ [".git"])⟩ : Path).join ⟨"info/exclude"⟩) := by
  obtain ⟨⟨dir, node⟩, hmem, hsome⟩ := List.mem_filterMap.mp (List.mem_mergeSort.mp h)
  have hentry := mem_holders_iff.mp hmem
  cases node with
  | directory =>
    cases hsome
    exact .inr ⟨hentry, rfl⟩
  | file content executable =>
    obtain ⟨repository, -, hsome⟩ := Option.bind_eq_some_iff.mp hsome
    cases hsome
    exact .inl ⟨content, executable, hentry⟩

theorem mem_files_iff [Automaton.Engine] {versionControl : Bool} {kind : IgnoreFiles} :
    kind ∈ (IgnoreRules.ofWorld w versionControl).files ↔
      kind = .named w.files ".ignore" ∨ versionControl = true ∧
        (kind = .named w.files ".gitignore" ∨ kind = .ofRepositories w) := by
  unfold IgnoreRules.ofWorld
  cases versionControl <;> simp

/-- Below a directory that is written out, nothing is loaded where there is no entry. -/
theorem load_of_missing [Automaton.Engine] (h : w.files.WellFormed) (hne : names ≠ [])
    (hentry : (w.files.get? names).isSome) (hrel : rel ≠ []) (hnames : ∀ name ∈ rel, IsName name)
    (hnone : w.files.get? (names ++ rel) = none) :
    IgnoreFiles.load w ((⟨"/" ++ "/".intercalate names⟩ : Path).join (ofNames rel)) = [] := by
  have hplace : w.placeOf ((⟨"/" ++ "/".intercalate names⟩ : Path).join (ofNames rel)) =
      some (names ++ rel) := by
    rw [World.placeOf_join_ofNames w (by simp) hrel hnames,
      World.placeOf_written w hne fun _ hname => (h.isName_of_mem hentry hname).1]
    rfl
  exact load_of_node?_eq_none (World.node?_of_place_missing hplace hnone)

/-- Where there are no ignore files, there are no patterns. -/
theorem noPatterns_of_missing [Automaton.Engine] (h : w.files.WellFormed)
    (hignore : ∀ dir, dir <+: names ∨ names <+: dir → w.files.get? (dir ++ [".ignore"]) = none)
    (hcontrol : f.versionControl = true → ∀ dir, dir <+: names ∨ names <+: dir →
      w.files.get? (dir ++ [".gitignore"]) = none ∧
        w.files.get? (dir ++ [".git"] ++ ["info", "exclude"]) = none ∧
        ∀ content executable, w.files.get? (dir ++ [".git"]) ≠ some (.file content executable))
    (huser : f.versionControl = true → w.pathExists (IgnoreSettings.userFile w) = false)
    (hproject : w.pathExists ((root.join ⟨".yaralens"⟩).join ⟨"ignore"⟩) = false) :
    NoPatterns w f root names where
  files := by
    intro kind hkind file hfile hway
    rcases mem_files_iff.mp hkind with rfl | ⟨hon, hkind⟩
    · obtain ⟨content, executable, hentry⟩ := exists_of_mem_named hfile
      rw [hignore file.1 hway] at hentry
      cases hentry
    obtain ⟨hgitignore, hexclude, hgit⟩ := hcontrol hon file.1 hway
    rcases hkind with rfl | rfl
    · obtain ⟨content, executable, hentry⟩ := exists_of_mem_named hfile
      rw [hgitignore] at hentry
      cases hentry
    · rcases exists_of_mem_ofRepositories hfile with ⟨content, executable, hentry⟩ | ⟨hentry, hload⟩
      · exact absurd hentry (hgit content executable)
      · have hsome : (w.files.get? (file.1 ++ [".git"])).isSome := by
          rw [hentry]
          rfl
        have hnone := load_of_missing h (List.concat_ne_nil ".git" file.1) hsome
          (List.cons_ne_nil "info" ["exclude"]) (by decide) hexclude
        exact hload.trans hnone
  user := by
    show (if f.versionControl then _ else _) = _
    split
    · rename_i hon
      exact load_of_node?_eq_none
        (Option.isNone_iff_eq_none.mp (Option.isSome_eq_false_iff.mp (huser hon)))
    · rfl
  project := load_of_node?_eq_none
    (Option.isNone_iff_eq_none.mp (Option.isSome_eq_false_iff.mp hproject))

/-- There are none either where no entry at all has the name of an ignore file, which can be told
from the tree without a look at the directories. -/
theorem noPatterns_of_holders [Automaton.Engine] (h : w.files.WellFormed)
    (hholders : ∀ name ∈ [".ignore", ".gitignore", ".git", "exclude"],
      IgnoreFiles.holders w.files name = [])
    (huser : w.pathExists (IgnoreSettings.userFile w) = false)
    (hproject : w.pathExists ((root.join ⟨".yaralens"⟩).join ⟨"ignore"⟩) = false) (names : Names) :
    NoPatterns w f root names := by
  have hmissing : ∀ name ∈ [".ignore", ".gitignore", ".git", "exclude"], ∀ dir,
      w.files.get? (dir ++ [name]) = none :=
    fun name hname => get?_concat_of_holders_eq_nil (hholders name hname)
  apply noPatterns_of_missing h
  · exact fun dir _ => hmissing ".ignore" (by decide) dir
  · intro _ dir _
    refine ⟨hmissing ".gitignore" (by decide) dir, ?_, fun content executable hgit => ?_⟩
    · have hexclude := hmissing "exclude" (by decide) (dir ++ [".git", "info"])
      rw [List.append_assoc] at hexclude ⊢
      exact hexclude
    · rw [hmissing ".git" (by decide) dir] at hgit
      cases hgit
  · exact fun _ => huser
  · exact hproject

/-! ## 2. Walks without patterns -/

theorem foldl_orElse_undecided {α : Type} {verdictOf : α → Verdict} {files : List α}
    (h : ∀ file ∈ files, verdictOf file = .undecided) :
    files.foldl (fun (v : Verdict) file => v.orElse (verdictOf file)) .undecided = .undecided := by
  induction files with
  | nil => rfl
  | cons file files ih =>
    rw [List.foldl_cons, h file List.mem_cons_self]
    exact ih fun other hother => h other (List.mem_cons_of_mem file hother)

theorem NoPatterns.verdict [Automaton.Engine] (h : NoPatterns w f root names) (rel : Names)
    (p : Path) (isDirectory : Bool) :
    (IgnoreRules.ofWorld w f.versionControl).verdict (names ++ rel) p isDirectory = .undecided := by
  unfold IgnoreRules.verdict
  rw [h.user, foldl_orElse_undecided]
  · rfl
  intro kind hkind
  unfold IgnoreFiles.verdict
  apply foldl_orElse_undecided
  intro file hfile
  obtain ⟨hmem, habove⟩ := List.mem_filter.mp hfile
  rw [Bool.and_eq_true, List.isPrefixOf_iff_prefix] at habove
  rw [h.files kind hkind file hmem
    (List.prefix_or_prefix_of_prefix habove.1 (List.prefix_append names rel))]
  rfl

/-- A walk then passes over what is hidden, and over nothing else. -/
theorem NoPatterns.skipsAt_eq_false_iff [Automaton.Engine] (h : NoPatterns w f root names)
    (hrel : rel ≠ []) :
    skipsAt w f root names rel = false ↔
      (f.includeHidden = false → ∀ name ∈ rel.getLast?, name.toList.head? ≠ some '.') := by
  have hlast : (names ++ rel).getLast? = rel.getLast? := by
    rw [List.getLast?_append, List.getLast?_eq_some_getLast hrel, Option.some_or]
  unfold skipsAt skips
  rw [h.verdict, hlast]
  cases rel.getLast? <;> cases f.includeHidden <;> simp [Filter.isHidden]

theorem NoPatterns.mem_walked_iff [Automaton.Engine] (hnone : NoPatterns w f root names)
    (h : w.files.WellFormed) {node : Node} :
    (rel, node) ∈ walked w f root names ↔
      rel ≠ [] ∧ w.files.get? (names ++ rel) = some node ∧
        (f.includeHidden = false → ∀ name ∈ rel, name.toList.head? ≠ some '.') := by
  rw [mem_walked h]
  apply and_congr_right
  intro hrel
  apply and_congr_right
  intro _
  apply Iff.intro
  · intro habove hhidden name hname
    obtain ⟨front, rest, rfl⟩ := List.append_of_mem hname
    have hne : front ++ [name] ≠ [] := List.concat_ne_nil name front
    have hskip := habove (front ++ [name]) hne ⟨rest, by simp⟩
    exact (hnone.skipsAt_eq_false_iff hne).mp hskip hhidden name (List.getLast?_concat ..)
  · intro hshown above hne habove
    rw [hnone.skipsAt_eq_false_iff hne]
    intro hhidden name hname
    exact hshown hhidden name (habove.mem (List.mem_of_mem_getLast? hname))

theorem NoPatterns.isIgnoredBy_pathOf [Automaton.Engine] (hnone : NoPatterns w f root names)
    (hroot : root.text ≠ "") (hnames : ∀ name ∈ rel, IsName name) :
    isIgnoredBy (projectPatterns w root) w f root (pathOf root rel) = rel.any f.excludesName := by
  rw [Discovery.isIgnoredBy_pathOf _ hroot hnames, hnone.project]
  exact Bool.or_false _

/-! ## 3. Rule files -/

/-- An entry at or below the root, which is the directory `names`, that says itself that it is a
rule file to be found. -/
structure IsRuleEntry (w : World) (f : Filter) (root : Path) (names rel : Names) : Prop where
  isFile : ∃ content executable, w.files.get? (names ++ rel) = some (.file content executable)
  taken : (pathOf root rel).text.utf8ByteSize ≤ FileTree.maxPathBytes
  isNamed : ∃ stem extension, stem ≠ "" ∧ extension ∈ ["yara", "yar"] ∧
    (pathOf root rel).fileName? = some (stem ++ "." ++ extension)
  not_excluded : ∀ name ∈ rel, ¬ f.Excludes name

theorem NoPatterns.isFound_iff [Automaton.Engine] (hnone : NoPatterns w f root names)
    (h : w.files.WellFormed) (hroot : w.resolve root = .ok names)
    (hentry : (w.files.get? (names ++ rel)).isSome) :
    isFound (projectPatterns w root) w f root rel = true ↔ IsRuleEntry w f root names rel := by
  unfold isFound
  simp only [Bool.and_eq_true, Bool.not_eq_true',
    hnone.isIgnoredBy_pathOf (text_ne_empty_of_resolve hroot) (isName_of_entry h hentry),
    isFile_pathOf h hroot hentry, Path.isRuleFile_iff, List.any_eq_false,
    Filter.excludesName_eq_true_iff]
  apply Iff.intro
  · rintro ⟨⟨⟨hfile, hsize⟩, hnamed⟩, hexcluded⟩
    exact ⟨hfile, hsize, hnamed, hexcluded⟩
  · rintro ⟨hfile, hsize, hnamed, hexcluded⟩
    exact ⟨⟨⟨hfile, hsize⟩, hnamed⟩, hexcluded⟩

/-- What a walk passes over could not be found anyway. -/
theorem NoPatterns.mem_met [Automaton.Engine] (hnone : NoPatterns w f root names)
    (h : w.files.WellFormed) (hroot : w.resolve root = .ok names)
    (hrule : IsRuleEntry w f root names rel) :
    rel ∈ met w f root := by
  unfold met
  rw [hroot]
  by_cases hrel : rel = []
  · rw [hrel]
    exact List.mem_cons_self
  obtain ⟨content, executable, hfile⟩ := hrule.isFile
  apply List.mem_cons_of_mem
  refine List.mem_map.mpr ⟨(rel, _), (hnone.mem_walked_iff h).mpr ⟨hrel, hfile, ?_⟩, rfl⟩
  intro hhidden name hname hdot
  exact hrule.not_excluded name hname (.inr (.inr ⟨hhidden, hdot⟩))

theorem components_pathOf (hroot : root.text ≠ "") (hnames : ∀ name ∈ rel, IsName name) :
    (pathOf root rel).components = root.components ++ rel.map .name := by
  by_cases hrel : rel = []
  · rw [hrel, pathOf_nil, List.map_nil, List.append_nil]
  · rw [pathOf_of_ne_nil root hrel, Path.components_join_ofNames hroot hrel hnames]

theorem compare_map_name (a b : Names) :
    compare (a.map Component.name) (b.map Component.name) = compare a b := by
  induction a generalizing b with
  | nil => cases b <;> rfl
  | cons name a ih =>
    cases b with
    | nil => rfl
    | cons other b =>
      rw [List.map_cons, List.map_cons, List.compare_cons_cons, List.compare_cons_cons, ih]
      rfl

/-- Entries in the order of their names have paths in the same order. -/
theorem compare_pathOf {a b : Names} (hroot : root.text ≠ "") (ha : ∀ name ∈ a, IsName name)
    (hb : ∀ name ∈ b, IsName name) : compare (pathOf root a) (pathOf root b) = compare a b := by
  show compare (pathOf root a).components (pathOf root b).components = _
  rw [components_pathOf hroot ha, components_pathOf hroot hb, FileTree.compare_append,
    compare_map_name]

theorem pairwise_met [Automaton.Engine] (h : w.files.WellFormed) (f : Filter) (root : Path) :
    (met w f root).Pairwise fun a b => compare (pathOf root a) (pathOf root b) = .lt := by
  unfold met
  split
  · exact .nil
  rename_i names hroot
  have htext := text_ne_empty_of_resolve hroot
  have hnames : ∀ {rel : Names}, rel ∈ (walked w f root names).map (·.1) →
      rel ≠ [] ∧ ∀ name ∈ rel, IsName name := by
    intro rel hrel
    obtain ⟨⟨rel, node⟩, hwalked, rfl⟩ := List.mem_map.mp hrel
    obtain ⟨hne, hnode, -⟩ := (mem_walked h).mp hwalked
    exact ⟨hne, isName_of_entry h (by rw [hnode]; rfl)⟩
  refine List.pairwise_cons.mpr ⟨fun rel hrel => ?_, ?_⟩
  · obtain ⟨hne, hall⟩ := hnames hrel
    obtain ⟨name, rel, rfl⟩ := List.exists_cons_of_ne_nil hne
    rw [compare_pathOf htext (fun _ hname => absurd hname List.not_mem_nil) hall]
    rfl
  · apply (pairwise_walked w f root names).imp_of_mem
    intro a b ha hb hlt
    rw [compare_pathOf htext (hnames ha).2 (hnames hb).2]
    exact hlt

/-- Where no ignore file says anything, a discovery finds the first rule files in the order of their
paths, each of them once. -/
theorem exists_find_eq_take [Automaton.Engine] (h : w.files.WellFormed)
    (hnone : ∀ names, w.resolve root = .ok names → NoPatterns w f root names) :
    ∃ found : List Names,
      (∀ limit, find w f root limit = found.take limit) ∧
      (found.Pairwise fun a b => compare (pathOf root a) (pathOf root b) = .lt) ∧
      ∀ rel, rel ∈ found ↔
        ∃ names, w.resolve root = .ok names ∧ IsRuleEntry w f root names rel := by
  refine ⟨(met w f root).filter (isFound (projectPatterns w root) w f root), fun _ => rfl,
    (pairwise_met h f root).filter _, fun rel => ?_⟩
  rw [List.mem_filter]
  apply Iff.intro
  · rintro ⟨hmet, hfound⟩
    obtain ⟨names, hroot, hentry⟩ := exists_of_isFound h hmet hfound
    exact ⟨names, hroot, ((hnone names hroot).isFound_iff h hroot hentry).mp hfound⟩
  · rintro ⟨names, hroot, hrule⟩
    have hentry : (w.files.get? (names ++ rel)).isSome := by
      obtain ⟨content, executable, hfile⟩ := hrule.isFile
      rw [hfile]
      rfl
    exact ⟨(hnone names hroot).mem_met h hroot hrule,
      ((hnone names hroot).isFound_iff h hroot hentry).mpr hrule⟩

/-- A directory with rule files of both kinds, a file next to a directory of the same name, and
names that are ignored. -/
def mixed : World where
  files :=
    [["w", "a.yara"], ["w", "a", "x.yar"], ["w", "a", ".y.yar"], ["w", "skip", "z.yar"],
      ["w", "b.tmp", "z.yar"], ["w", ".yara"], ["w", "c.txt"]].foldl
      (fun t names => t.insert names (.file ByteArray.empty false))
      ([["w"], ["w", "a"], ["w", "skip"], ["w", "b.tmp"]].foldl
        (fun t names => t.insert names .directory) FileTree.empty)
  cwd := []
  env := []
  home := ⟨"/"⟩
  programs := []

theorem exists_find_eq_take_mixed :
    let f : Filter := { ignoredNames := ["skip", "*.tmp"] }
    find mixed f ⟨"/w"⟩ 1 = [["a", "x.yar"]] ∧
      ∀ rel, rel ∈ [["a", "x.yar"], ["a.yara"]] ↔
        ∃ names, mixed.resolve ⟨"/w"⟩ = .ok names ∧ IsRuleEntry mixed f ⟨"/w"⟩ names rel := by
  intro f
  have hwf : mixed.files.WellFormed := by decide +kernel
  have hnone : ∀ names, NoPatterns mixed f ⟨"/w"⟩ names :=
    noPatterns_of_holders hwf (by decide +kernel) (by decide +kernel) (by decide +kernel)
  obtain ⟨found, htake, -, hmem⟩ := exists_find_eq_take (f := f) hwf fun names _ => hnone names
  have hten : found.take 10 = [["a", "x.yar"], ["a.yara"]] := by
    rw [← htake]
    decide +kernel
  have hfound : found = [["a", "x.yar"], ["a.yara"]] := by
    have hlength := congrArg List.length hten
    rw [List.length_take] at hlength
    rw [← hten, List.take_of_length_le]
    simp at hlength
    omega
  rw [hfound] at htake hmem
  exact ⟨htake 1, hmem⟩

/-! ## 4. Paths that are too long -/

/-- The root directory, written with `n` slashes. -/
def slashes (n : Nat) : Path := ⟨String.ofList (List.replicate n '/')⟩

/-- A rule file right below the root directory. -/
def lone : World where
  files := FileTree.empty.insert ["a.yara"] (.file ByteArray.empty false)
  cwd := []
  env := []
  home := ⟨"/"⟩
  programs := []

theorem utf8ByteSize_slashes (n : Nat) : (slashes n).text.utf8ByteSize = n := by
  unfold slashes
  induction n with
  | zero => rfl
  | succ n ih =>
    rw [List.replicate_succ, String.ofList_cons, String.utf8ByteSize_append, ih, Nat.add_comm]
    rfl

theorem pieces_slashes (n : Nat) : (slashes n).pieces = List.replicate (n + 1) [] := by
  unfold Path.pieces slashes
  rw [String.toList_ofList]
  induction n with
  | zero => rfl
  | succ n ih =>
    rw [List.replicate_succ, List.replicate_succ, ← ih]
    exact List.splitOn_append_cons_self [] _

theorem resolve_slashes {n : Nat} (hpos : 0 < n) (hn : n ≤ FileTree.maxPathBytes) :
    lone.resolve (slashes n) = .ok [] := by
  have hwalk : ∀ n, lone.files.walk [] (List.replicate n []) = .ok [] := by
    intro n
    induction n with
    | zero => rfl
    | succ n ih => exact ih
  refine FileTree.resolve_eq_ok_iff.mpr ⟨FileTree.checkPath_eq_ok_iff.mpr ⟨?_, ?_, ?_⟩, ?_⟩
  · intro hempty
    rw [← String.utf8ByteSize_eq_zero_iff, utf8ByteSize_slashes] at hempty
    omega
  · unfold slashes
    rw [String.toList_ofList, List.mem_replicate]
    rintro ⟨-, hnul⟩
    cases hnul
  · rw [utf8ByteSize_slashes]
    exact hn
  · have hbase : FileTree.base lone.cwd (slashes n) = [] := ite_self []
    rw [hbase, pieces_slashes, hwalk]

theorem lt_utf8ByteSize_join {p q : Path} (hp : FileTree.maxPathBytes ≤ p.text.utf8ByteSize)
    (hq : q.isAbsolute = false) (hne : q.text ≠ "") :
    FileTree.maxPathBytes < (p.join q).text.utf8ByteSize := by
  have htext : p.text ≠ "" := by
    intro hempty
    rw [hempty] at hp
    exact absurd hp (by decide)
  have hpos : q.text.utf8ByteSize ≠ 0 := fun h => hne (String.utf8ByteSize_eq_zero_iff.mp h)
  obtain ⟨sep, -, hjoin⟩ := Path.exists_join_eq htext
  rw [hjoin q hq, String.utf8ByteSize_append, String.utf8ByteSize_append]
  omega

theorem find_of_long_root [Automaton.Engine] {n : Nat} (hn : n = FileTree.maxPathBytes) :
    (∀ names, NoPatterns lone {} (slashes n) names) ∧ find lone {} (slashes n) 1 = [] := by
  have hwf : lone.files.WellFormed := by decide +kernel
  have hsize : FileTree.maxPathBytes ≤ (slashes n).text.utf8ByteSize := by
    rw [utf8ByteSize_slashes]
    exact Nat.le_of_eq hn.symm
  have hroot := resolve_slashes (n := n) (by rw [hn]; decide) (Nat.le_of_eq hn)
  refine ⟨?_, ?_⟩
  · apply noPatterns_of_holders hwf (by decide +kernel) (by decide +kernel)
    have hlong := lt_utf8ByteSize_join (q := ⟨"ignore"⟩)
      (Nat.le_of_lt (lt_utf8ByteSize_join (q := ⟨".yaralens"⟩) hsize (by decide) (by decide)))
      (by decide) (by decide)
    unfold World.pathExists
    rw [World.node?_of_not_taken]
    · rfl
    intro htaken
    exact absurd (FileTree.checkPath_eq_ok_iff.mp htaken).2.2 (Nat.not_le.mpr hlong)
  · unfold find
    rw [List.filter_eq_nil_iff.mpr]
    · rfl
    intro rel hmet hfound
    obtain ⟨names, hroot', hentry⟩ := exists_of_isFound hwf hmet hfound
    have hnames := isName_of_entry hwf hentry
    unfold isFound at hfound
    simp only [Bool.and_eq_true, isFile_pathOf hwf hroot' hentry] at hfound
    obtain ⟨⟨⟨⟨content, executable, hfile⟩, htaken⟩, -⟩, -⟩ := hfound
    by_cases hrel : rel = []
    · -- the root is a directory
      rw [hroot] at hroot'
      cases hroot'
      rw [hrel] at hfile
      cases hfile
    · have htight := Path.isTight_ofNames hrel hnames
      rw [pathOf_of_ne_nil _ hrel] at htaken
      refine absurd htaken (Nat.not_le.mpr (lt_utf8ByteSize_join hsize htight.isAbsolute ?_))
      exact htight.text_ne_empty

/-- The system takes no path to a file below a root that is as long as a path may be, and so the
file is not found there.  Nothing else keeps it from being found. -/
theorem find_below_slashes :
    lone.files.WellFormed ∧ (∀ names, NoPatterns lone {} (slashes 4095) names) ∧
      lone.resolve (slashes 4095) = lone.resolve ⟨"/"⟩ ∧ find lone {} ⟨"/"⟩ 1 = [["a.yara"]] ∧
      find lone {} (slashes 4095) 1 = [] := by
  obtain ⟨hnone, hfind⟩ := find_of_long_root (n := 4095) rfl
  exact ⟨by decide +kernel, hnone, resolve_slashes (by decide) (by decide), by decide +kernel,
    hfind⟩

end RuleLens.Discovery
