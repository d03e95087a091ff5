import RuleLens.Compiler.Batch

/-!
# Batches in any order

The outcomes of a batch arrive in the order in which the runs of the compiler end.  Paths with
different components are never equal in the order of paths, so the list of outcomes by path is the
same whatever order they arrived in.  Only if some of them end the batch does the order count: it
decides which of their errors is told.
-/

namespace RuleLens

/-! ## 1. The order of paths -/

/-- Components are ordered by their rank, and those of one rank by their names. -/
theorem Component.compare_eq_compareLex (a b : Component) :
    compare a b = compareLex (compareOn rank) (compareOn fun c => c.name?.getD "") a b := by
  cases a <;> cases b <;> rfl

theorem Component.eq_of_rank_of_name {a b : Component} (hrank : a.rank = b.rank)
    (hname : a.name?.getD "" = b.name?.getD "") : a = b := by
  cases a <;> cases b <;> simp_all [rank, name?]

instance : Std.TransOrd Component where
  eq_swap := by
    intro a b
    rw [Component.compare_eq_compareLex, Component.compare_eq_compareLex b]
    exact Std.OrientedCmp.eq_swap
  isLE_trans := by
    intro a b c hab hbc
    rw [Component.compare_eq_compareLex] at hab hbc ⊢
    exact Std.TransCmp.isLE_trans hab hbc

instance : Std.LawfulEqOrd Component where
  compare_self := by
    intro a
    exact Std.compare_self
  eq_of_compare := by
    intro a b h
    rw [Component.compare_eq_compareLex, compareLex, Ordering.then_eq_eq] at h
    exact Component.eq_of_rank_of_name (Std.LawfulEqCmp.eq_of_compare h.1)
      (Std.LawfulEqCmp.eq_of_compare h.2)

instance : Std.TransOrd Path :=
  inferInstanceAs (Std.TransCmp (compareOn Path.components))

theorem Path.compare_swap (p q : Path) : compare p q = (compare q p).swap :=
  Std.OrientedCmp.eq_swap

/-- Paths that come neither before nor behind each other have the same components. -/
theorem Path.components_eq_of_compare {p q : Path} (h : compare p q = .eq) :
    p.components = q.components := by
  change compare p.components q.components = .eq at h
  exact Std.LawfulEqCmp.eq_of_compare h

namespace Batch

variable {files : List Path} {outcome : Path → Outcome} {arrivals : List (Path × Outcome)}

/-! ## 2. Lists by path -/

/-- One file comes before another in the list of a batch. -/
def Before (a b : Path × Outcome) : Prop :=
  compare a.1 b.1 = .lt

/-- The outcomes of a batch, sorted by path. -/
def byPath (arrivals : List (Path × Outcome)) : List (Path × Outcome) :=
  arrivals.mergeSort fun a b => (compare a.1 b.1).isLE

theorem perm_byPath (arrivals : List (Path × Outcome)) : (byPath arrivals).Perm arrivals :=
  List.mergeSort_perm _ _

theorem pairwise_isLE_byPath (arrivals : List (Path × Outcome)) :
    (byPath arrivals).Pairwise fun a b => (compare a.1 b.1).isLE = true := by
  apply List.pairwise_mergeSort
  · intro a b c
    exact Std.TransCmp.isLE_trans
  · intro a b
    rw [Path.compare_swap b.1]
    cases compare a.1 b.1 <;> rfl

/-- Paths with different components stand strictly one behind the other. -/
theorem pairwise_before_byPath
    (h : arrivals.Pairwise fun a b => a.1.components ≠ b.1.components) :
    (byPath arrivals).Pairwise Before := by
  have hdistinct := ((perm_byPath arrivals).pairwise_iff fun hne => hne.symm).mpr h
  refine ((pairwise_isLE_byPath arrivals).and hdistinct).imp ?_
  intro a b hab
  obtain hlt | heq := Ordering.isLE_iff_eq_lt_or_eq_eq.mp hab.1
  · exact hlt
  · exact absurd (Path.components_eq_of_compare heq) hab.2

/-- The same outcomes have one list only in which they stand strictly one behind the other. -/
theorem eq_of_pairwise_before {listed listed' : List (Path × Outcome)} (hperm : listed.Perm listed')
    (h : listed.Pairwise Before) (h' : listed'.Pairwise Before) : listed = listed' := by
  apply hperm.eq_of_pairwise _ h h'
  intro a b _ _ hab hba
  -- nothing comes before what comes before it
  unfold Before at hab hba
  rw [Path.compare_swap, hba] at hab
  cases hab

/-! ## 3. Errors that end a batch -/

/-- The outcome is the error `e` of a compiler that is not there or that refuses an option. -/
def EndsBatch (o : Outcome) (e : CompileError) : Prop :=
  o = .error (.compile e) ∧
    ((∃ command, e = .compilerNotFound command) ∨ ∃ line, e = .badFlag line)

theorem isConfiguration_eq_true_iff {e : CompileError} :
    e.isConfiguration = true ↔
      (∃ command, e = .compilerNotFound command) ∨ ∃ line, e = .badFlag line := by
  cases e <;> simp [CompileError.isConfiguration]

theorem fatal?_eq_some_iff {o : Outcome} {failure : Failure} :
    fatal? o = some failure ↔ ∃ e, failure = .compile e ∧ EndsBatch o e := by
  unfold EndsBatch
  simp only [← isConfiguration_eq_true_iff]
  cases o with
  | ok report => simp [fatal?]
  | error found =>
    simp only [fatal?, Option.ite_none_right_eq_some, Option.some.injEq]
    cases found with
    | analysis e => simp [Failure.isFatal]
    | compile e =>
      apply Iff.intro
      · rintro ⟨hfatal, rfl⟩
        exact ⟨e, rfl, rfl, hfatal⟩
      · rintro ⟨e', rfl, heq, hconfiguration⟩
        cases heq
        exact ⟨hconfiguration, rfl⟩

theorem fatal?_eq_none_iff {o : Outcome} : fatal? o = none ↔ ∀ e, ¬ EndsBatch o e := by
  rw [Option.eq_none_iff_forall_ne_some]
  apply Iff.intro
  · intro h e he
    exact h (.compile e) (fatal?_eq_some_iff.mpr ⟨e, rfl, he⟩)
  · intro h failure hfailure
    obtain ⟨e, -, he⟩ := fatal?_eq_some_iff.mp hfailure
    exact h e he

theorem ofArrivals_of_forall_not (h : ∀ a ∈ arrivals, ∀ e, ¬ EndsBatch a.2 e) :
    ofArrivals arrivals = .ok (byPath arrivals) := by
  have hnone : arrivals.findSome? (fun a => fatal? a.2) = none := by
    rw [List.findSome?_eq_none_iff]
    intro a ha
    exact fatal?_eq_none_iff.mpr (h a ha)
  unfold ofArrivals
  rw [hnone]
  rfl

/-- A batch that some outcome ends is told the error of the first one to arrive. -/
theorem exists_ofArrivals_eq_error (h : ∃ a ∈ arrivals, ∃ e, EndsBatch a.2 e) :
    ∃ a ∈ arrivals, ∃ e, EndsBatch a.2 e ∧ ofArrivals arrivals = .error (.compile e) := by
  cases hfirst : arrivals.findSome? (fun a => fatal? a.2) with
  | none =>
    obtain ⟨a, ha, e, he⟩ := h
    exact absurd he (fatal?_eq_none_iff.mp (List.findSome?_eq_none_iff.mp hfirst a ha) e)
  | some failure =>
    obtain ⟨a, ha, hfatal⟩ := List.exists_of_findSome?_eq_some hfirst
    obtain ⟨e, rfl, he⟩ := fatal?_eq_some_iff.mp hfatal
    refine ⟨a, ha, e, he, ?_⟩
    unfold ofArrivals
    rw [hfirst]

/-! ## 4. Every order of arrival -/

/-- The files of a batch with their outcomes. -/
def entries (files : List Path) (outcome : Path → Outcome) : List (Path × Outcome) :=
  files.map fun file => (file, outcome file)

theorem mem_entries {a : Path × Outcome} :
    a ∈ entries files outcome ↔ a.1 ∈ files ∧ a.2 = outcome a.1 := by
  unfold entries
  rw [List.mem_map]
  apply Iff.intro
  · rintro ⟨file, hfile, rfl⟩
    exact ⟨hfile, rfl⟩
  · rintro ⟨hfile, ho⟩
    exact ⟨a.1, hfile, Prod.ext rfl ho.symm⟩

/-- Files with different components have one result, whatever order their outcomes arrive in: the
list of all of them, strictly by path.  If some outcomes end the batch, there is no list but the
error of one of these.  Compiling all files below a root is such a batch. -/
theorem ofArrivals_in_any_order [Automaton.Engine]
    (hdistinct : files.Pairwise fun p q => p.components ≠ q.components) :
    ((∀ file ∈ files, ∀ e, ¬ EndsBatch (outcome file) e) →
      ∃ listed, listed.Perm (entries files outcome) ∧ listed.Pairwise Before ∧
        ∀ arrivals, arrivals.Perm (entries files outcome) → ofArrivals arrivals = .ok listed) ∧
    ((∃ file ∈ files, ∃ e, EndsBatch (outcome file) e) →
      ∀ arrivals, arrivals.Perm (entries files outcome) →
        ∃ file ∈ files, ∃ e, EndsBatch (outcome file) e ∧
          ofArrivals arrivals = .error (.compile e)) ∧
    ∀ c w limit filter root count,
      files = (Discovery.find w filter root count).map (Discovery.pathOf root) →
      outcome = compileFile c w limit →
        compileAll c w limit filter root count = ofArrivals (entries files outcome) := by
  have hentries : (entries files outcome).Pairwise fun a b => a.1.components ≠ b.1.components :=
    List.pairwise_map.mpr hdistinct
  refine ⟨fun hnone => ?_, fun hsome arrivals hperm => ?_, ?_⟩
  · refine ⟨byPath (entries files outcome), perm_byPath _, pairwise_before_byPath hentries, ?_⟩
    intro arrivals hperm
    have harrivals := (hperm.pairwise_iff fun hne => hne.symm).mpr hentries
    rw [ofArrivals_of_forall_not]
    · have hlists := (perm_byPath arrivals).trans (hperm.trans (perm_byPath _).symm)
      rw [eq_of_pairwise_before hlists (pairwise_before_byPath harrivals)
        (pairwise_before_byPath hentries)]
    · intro a ha e
      obtain ⟨hfile, ho⟩ := mem_entries.mp (hperm.mem_iff.mp ha)
      rw [ho]
      exact hnone a.1 hfile e
  · obtain ⟨file, hfile, e, he⟩ := hsome
    have hmem : (file, outcome file) ∈ arrivals :=
      hperm.mem_iff.mpr (mem_entries.mpr ⟨hfile, rfl⟩)
    obtain ⟨a, ha, e', he', hresult⟩ := exists_ofArrivals_eq_error ⟨_, hmem, e, he⟩
    obtain ⟨hfile', ho⟩ := mem_entries.mp (hperm.mem_iff.mp ha)
    rw [ho] at he'
    exact ⟨a.1, hfile', e', he', hresult⟩
  · rintro c w limit filter root count rfl rfl
    rfl

/-- A directory comes before a file with the same name and an extension, although a slash comes
behind a dot in a text.  One of two outcomes is an error: it has its place in the list if it
concerns one file, and is told whichever comes first if it concerns them all. -/
theorem ofArrivals_in_any_order_siblings :
    let file : Path := ⟨"r/a.yara"⟩
    let below : Path := ⟨"r/a/c.yara"⟩
    let slow : Path → Outcome := fun p =>
      if p = file then .error (.compile (.timeout 30)) else .ok ⟨p, [], some 0⟩
    let refused : Path → Outcome := fun p =>
      if p = file then .error (.compile (.badFlag ['-', 'x'])) else .ok ⟨p, [], some 0⟩
    [file, below].Pairwise (fun p q => p.components ≠ q.components) ∧
    (∀ arrivals, arrivals.Perm [(file, slow file), (below, slow below)] →
      ofArrivals arrivals = .ok [(below, slow below), (file, slow file)]) ∧
    ∀ arrivals, arrivals.Perm [(file, refused file), (below, refused below)] →
      ofArrivals arrivals = .error (.compile (.badFlag ['-', 'x'])) := by
  intro file below slow refused
  have hdistinct : [file, below].Pairwise fun p q => p.components ≠ q.components := by decide
  refine ⟨hdistinct, ?_, ?_⟩
  · have hnone : ∀ p ∈ [file, below], ∀ e, ¬ EndsBatch (slow p) e := by
      intro p hp
      rw [← fatal?_eq_none_iff]
      revert p
      decide
    obtain ⟨listed, hperm, hbefore, hall⟩ := (ofArrivals_in_any_order hdistinct).1 hnone
    have hlisted : listed = [(below, slow below), (file, slow file)] := by
      apply eq_of_pairwise_before (hperm.trans (.swap _ _ _)) hbefore
      exact List.pairwise_pair.mpr (by decide : compare below file = .lt)
    rw [← hlisted]
    exact hall
  · intro arrivals hperm
    have hsome : ∃ p ∈ [file, below], ∃ e, EndsBatch (refused p) e :=
      ⟨file, by simp, .badFlag ['-', 'x'], rfl, .inr ⟨_, rfl⟩⟩
    obtain ⟨p, hp, e, he, hresult⟩ := (ofArrivals_in_any_order hdistinct).2.1 hsome arrivals hperm
    have hfatal := fatal?_eq_some_iff.mpr ⟨e, rfl, he⟩
    rw [hresult]
    simp only [List.mem_cons, List.not_mem_nil, or_false] at hp
    rcases hp with rfl | rfl
    · cases hfatal
      rfl
    · cases hfatal

end Batch

end RuleLens
