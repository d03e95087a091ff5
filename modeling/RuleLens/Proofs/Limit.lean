import RuleLens.Proofs.ByteOrder
import RuleLens.Proofs.RuleFiles

/-!
# Limits of a discovery

A walk that stops at a limit has found the first files of one list, which is sorted by path from the
start: siblings are visited by their names, a directory before what lies below it, and paths are
ordered by one name after the other.  Sorting the outcomes of a batch by path so gives the order in
which the files were found, whatever order the outcomes arrive in.
-/

namespace RuleLens

/-! ## 1. Orders -/

/-- Names are compared one after the other, each by its bytes. -/
theorem lex_byteLT_iff {a b : Names} : List.Lex Text.ByteLT a b ↔ compare a b = .lt := by
  induction a generalizing b with
  | nil =>
    cases b with
    | nil => exact iff_of_false (fun h => nomatch h) (by decide)
    | cons name b => exact iff_of_true .nil rfl
  | cons first a ih =>
    cases b with
    | nil => exact iff_of_false (fun h => nomatch h) nofun
    | cons second b =>
      rw [List.compare_cons_cons, Ordering.then_eq_lt, ← ih, ← Text.byteLT_iff_compare]
      constructor
      · intro h
        cases h with
        | rel hlt => exact .inl hlt
        | cons hrest => exact .inr ⟨Std.ReflOrd.compare_self, hrest⟩
      · rintro (hlt | ⟨heq, hrest⟩)
        · exact .rel hlt
        · rw [Std.LawfulEqOrd.eq_of_compare heq]
          exact .cons hrest

namespace Batch

variable {files : List Path} {outcome : Path → Outcome} {arrivals listed : List (Path × Outcome)}

theorem eq_byPath_of_ofArrivals (h : ofArrivals arrivals = .ok listed) :
    listed = byPath arrivals := by
  unfold ofArrivals at h
  split at h
  · cases h
  · cases h
    rfl

/-- Files that stand in the order of paths are listed as they stand. -/
theorem eq_entries_of_ofArrivals (hfiles : files.Pairwise fun p q => compare p q = .lt)
    (hperm : arrivals.Perm (entries files outcome)) (h : ofArrivals arrivals = .ok listed) :
    listed = entries files outcome := by
  have hbefore : (entries files outcome).Pairwise Before := List.pairwise_map.mpr hfiles
  have hdistinct : (entries files outcome).Pairwise fun a b => a.1.components ≠ b.1.components := by
    refine hbefore.imp ?_
    intro a b hlt heq
    change compare a.1.components b.1.components = .lt at hlt
    rw [heq, Std.ReflOrd.compare_self] at hlt
    cases hlt
  have harrivals := (hperm.pairwise_iff fun hne => hne.symm).mpr hdistinct
  rw [eq_byPath_of_ofArrivals h]
  exact eq_of_pairwise_before ((perm_byPath arrivals).trans hperm)
    (pairwise_before_byPath harrivals) hbefore

end Batch

namespace Discovery

variable {w : World} {f : Filter} {root : Path} {limit m n : Nat} {rule : Names → Bool}
  {found entries : List Names}

/-! ## 2. Walks that stop -/

/-- What a walk has found when it ends.  It stops in front of an entry once it has found as many as
the limit says, and goes on behind those that are no rule files to be found. -/
def gather (rule : Names → Bool) (limit : Nat) (found : List Names) : List Names → List Names
  | [] => found
  | entry :: rest =>
    if limit ≤ found.length then found
    else if rule entry then gather rule limit (found ++ [entry]) rest
    else gather rule limit found rest

theorem gather_eq :
    gather rule limit found entries =
      found ++ (entries.filter rule).take (limit - found.length) := by
  induction entries generalizing found with
  | nil => rw [gather, List.filter_nil, List.take_nil, List.append_nil]
  | cons entry rest ih =>
    rw [gather]
    split
    · rename_i hfull
      rw [Nat.sub_eq_zero_of_le hfull, List.take_zero, List.append_nil]
    · rename_i hroom
      split
      · rename_i hrule
        have hnext : limit - found.length = limit - (found.length + 1) + 1 := by omega
        rw [ih, List.filter_cons_of_pos hrule, hnext, List.take_succ_cons, List.length_append,
          List.append_assoc]
        rfl
      · rename_i hrule
        rw [ih, List.filter_cons_of_neg hrule]

theorem find_eq_gather [Automaton.Engine] (w : World) (f : Filter) (root : Path) (limit : Nat) :
    find w f root limit =
      gather (isFound (projectPatterns w root) w f root) limit [] (met w f root) := by
  rw [gather_eq]
  rfl

/-! ## 3. Sorted walks -/

theorem pairwise_lex_met [Automaton.Engine] (h : w.files.WellFormed) (f : Filter) (root : Path) :
    (met w f root).Pairwise (List.Lex Text.ByteLT) := by
  unfold met
  split
  · exact .nil
  rename_i names hroot
  refine List.pairwise_cons.mpr ⟨fun rel hrel => ?_, ?_⟩
  · obtain ⟨⟨rel, node⟩, hwalked, rfl⟩ := List.mem_map.mp hrel
    obtain ⟨name, rel, rfl⟩ := List.exists_cons_of_ne_nil ((mem_walked h).mp hwalked).1
    exact .nil
  · exact (pairwise_walked w f root names).imp lex_byteLT_iff.mpr

theorem pairwise_byteLT_children (t : FileTree) (dir : Names) :
    (t.children dir).Pairwise Text.ByteLT :=
  (t.pairwise_children dir).imp Text.byteLT_iff_compare.mpr

/-- The paths of the files that a discovery finds. -/
def paths [Automaton.Engine] (w : World) (f : Filter) (root : Path) (limit : Nat) : List Path :=
  (find w f root limit).map (pathOf root)

theorem pairwise_paths [Automaton.Engine] (h : w.files.WellFormed) (f : Filter) (root : Path)
    (limit : Nat) :
    (paths w f root limit).Pairwise fun p q => compare p q = .lt :=
  List.pairwise_map.mpr (((pairwise_met h f root).filter _).take)

/-- A smaller limit finds the first files that a larger one finds, as the walk that stops there
does: the walk that visits a directory before what lies below it, and siblings by the bytes of their
names.  What it finds stands in the order of paths, name by name, and so it is in this order that a
batch lists the files, whatever order their outcomes arrive in. -/
theorem find_eq_take_of_le [Automaton.Engine] (h : w.files.WellFormed) (f : Filter) (root : Path)
    (hmn : m ≤ n) :
    find w f root m = (find w f root n).take m ∧
      find w f root m =
        gather (isFound (projectPatterns w root) w f root) m [] (met w f root) ∧
      (∀ names, w.resolve root = .ok names →
        ∃ least, ∀ depth, least ≤ depth →
          met w f root = [] :: w.files.depthFirst names (skipsAt w f root names) depth []) ∧
      (∀ dir, (w.files.children dir).Pairwise Text.ByteLT) ∧
      (find w f root m).Pairwise (List.Lex Text.ByteLT) ∧
      ((paths w f root m).Pairwise fun p q => compare p q = .lt) ∧
      (∀ outcome arrivals listed, arrivals.Perm (Batch.entries (paths w f root m) outcome) →
        Batch.ofArrivals arrivals = .ok listed →
          listed = Batch.entries (paths w f root m) outcome) ∧
      ∀ c bytes listed, Batch.compileAll c w bytes f root m = .ok listed →
        listed = Batch.entries (paths w f root m) (Batch.compileFile c w bytes) := by
  have hpaths := pairwise_paths h f root m
  refine ⟨?_, find_eq_gather w f root m, ?_, pairwise_byteLT_children w.files,
    ((pairwise_lex_met h f root).filter _).take, hpaths, ?_, ?_⟩
  · unfold find
    rw [List.take_take, Nat.min_eq_left hmn]
  · intro names hroot
    obtain ⟨least, hleast⟩ := exists_walked_eq_depthFirst h f root names
    refine ⟨least, fun depth hdepth => ?_⟩
    unfold met
    rw [hroot, ← hleast depth hdepth]
  · intro outcome arrivals listed
    exact Batch.eq_entries_of_ofArrivals hpaths
  · intro c bytes listed hlisted
    exact Batch.eq_entries_of_ofArrivals hpaths (.refl _) hlisted

/-- A rule file next to a directory of the same name, and a compiler that finds nothing wrong. -/
def twins : World where
  files :=
    [["w", "a.yara"], ["w", "a", "x.yar"]].foldl
      (fun t names => t.insert names (.file ByteArray.empty false))
      ([["w"], ["w", "a"]].foldl (fun t names => t.insert names .directory)
        (FileTree.empty.insert ["yarac"] (.file ByteArray.empty true)))
  cwd := []
  env := []
  home := ⟨"/"⟩
  programs := [(["yarac"], fun _ _ => ⟨[], [], .exited 0⟩)]

theorem find_eq_take_of_le_twins :
    find twins {} ⟨"/w"⟩ 1 = [["a", "x.yar"]] ∧
      ∃ listed, Batch.compileAll ⟨⟨"/yarac"⟩, [], none⟩ twins 0 {} ⟨"/w"⟩ 2 = .ok listed ∧
        listed.map (·.1) = [⟨"/w/a/x.yar"⟩, ⟨"/w/a.yara"⟩] := by
  have hwf : twins.files.WellFormed := by decide +kernel
  have hfind : find twins {} ⟨"/w"⟩ 2 = [["a", "x.yar"], ["a.yara"]] := by decide +kernel
  refine ⟨?_, ?_⟩
  · rw [(find_eq_take_of_le hwf {} ⟨"/w"⟩ (Nat.le_succ 1)).1, hfind]
    rfl
  · obtain ⟨-, -, -, -, -, -, -, hlist⟩ := find_eq_take_of_le hwf {} ⟨"/w"⟩ (Nat.le_refl 2)
    cases hresult : Batch.compileAll ⟨⟨"/yarac"⟩, [], none⟩ twins 0 {} ⟨"/w"⟩ 2 with
    | error e =>
      have hok : (Batch.compileAll ⟨⟨"/yarac"⟩, [], none⟩ twins 0 {} ⟨"/w"⟩ 2).toBool = true := by
        decide +kernel
      rw [hresult] at hok
      cases hok
    | ok listed =>
      refine ⟨listed, rfl, ?_⟩
      rw [hlist _ _ _ hresult, Batch.entries, List.map_map, paths, hfind]
      decide

end Discovery

end RuleLens
