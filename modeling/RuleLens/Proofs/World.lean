import RuleLens.Proofs.Growth
import RuleLens.World.Basic

/-!
# Paths in a world

What a path names is the entry at its place, unless the system does not take the path.
-/

namespace RuleLens.World

open RuleLens.Path (IsName ofNames)

variable {w : World} {p : Path} {content : ByteArray} {place names : Names}

theorem node?_eq_some_iff {node : Node} :
    w.node? p = some node ↔ ∃ names, w.resolve p = .ok names ∧ w.files.get? names = some node := by
  unfold node?
  cases w.resolve p with
  | error cause => simp
  | ok names => simp

theorem read_of_file {executable : Bool} (h : w.node? p = some (.file content executable)) :
    w.read p = .ok content := by
  obtain ⟨names, hnames, hnode⟩ := node?_eq_some_iff.mp h
  unfold read
  simp only [hnames, bind, Except.bind, hnode]

theorem read_of_directory (h : w.node? p = some .directory) :
    w.read p = .error .isADirectory := by
  obtain ⟨names, hnames, hnode⟩ := node?_eq_some_iff.mp h
  unfold read
  simp only [hnames, bind, Except.bind, hnode]

/-- Nothing is read where nothing is. -/
theorem exists_read_of_node?_eq_none (h : w.node? p = none) :
    ∃ cause, w.read p = .error cause := by
  unfold node? at h
  unfold read
  cases hresolve : w.resolve p with
  | error cause => exact ⟨cause, rfl⟩
  | ok names =>
    simp only [hresolve] at h
    simp only [bind, Except.bind, h]
    exact ⟨_, rfl⟩

/-- The names to which a path leads from the current directory. -/
def placeOf (w : World) (p : Path) : Option Names :=
  w.files.place? w.cwd p

/-- Names behind a path lead on from its place. -/
theorem placeOf_join_ofNames (w : World) (hp : p.text ≠ "") (hne : names ≠ [])
    (h : ∀ name ∈ names, IsName name) :
    w.placeOf (p.join (ofNames names)) = (w.placeOf p).map (· ++ names) := by
  unfold placeOf FileTree.place? FileTree.base
  rw [Path.isAbsolute_join (Path.isTight_ofNames hne h).isAbsolute hp,
    Path.components_join_ofNames hp hne h, FileTree.placeFrom_append]
  cases w.files.placeFrom (if p.isAbsolute then [] else w.cwd) p.components with
  | none => rfl
  | some there => exact FileTree.placeFrom_names w.files there names

/-- A path that is written out from the root directory leads to the entry with these names. -/
theorem placeOf_written (w : World) (hne : names ≠ []) (h : ∀ name ∈ names, IsName name) :
    w.placeOf ⟨"/" ++ "/".intercalate names⟩ = some names := by
  have hjoin : (⟨"/"⟩ : Path).join (ofNames names) = ⟨"/" ++ "/".intercalate names⟩ := by
    unfold Path.join
    rw [(Path.isTight_ofNames hne h).isAbsolute]
    rfl
  rw [← hjoin, placeOf_join_ofNames w (by decide) hne h]
  rfl

theorem node?_of_not_taken (htaken : FileTree.checkPath p ≠ .ok ()) : w.node? p = none := by
  apply Option.eq_none_iff_forall_ne_some.mpr
  intro node hnode
  obtain ⟨names, hnames, -⟩ := node?_eq_some_iff.mp hnode
  exact htaken (FileTree.resolve_eq_ok_iff.mp hnames).1

/-- What a path names is at its place. -/
theorem exists_placeOf_of_node? {node : Node} (h : w.node? p = some node) :
    ∃ place, w.placeOf p = some place ∧ w.files.get? place = some node := by
  obtain ⟨names, hnames, hnode⟩ := node?_eq_some_iff.mp h
  exact ⟨names, FileTree.place?_of_resolve hnames, hnode⟩

theorem node?_of_placeOf_eq_none (h : w.placeOf p = none) : w.node? p = none := by
  apply Option.eq_none_iff_forall_ne_some.mpr
  intro node hnode
  obtain ⟨place, hplace, -⟩ := exists_placeOf_of_node? hnode
  rw [h] at hplace
  cases hplace

theorem node?_of_place_missing (h : w.placeOf p = some place)
    (hnone : w.files.get? place = none) : w.node? p = none := by
  apply Option.eq_none_iff_forall_ne_some.mpr
  intro node hnode
  obtain ⟨there, hthere, hnode⟩ := exists_placeOf_of_node? hnode
  rw [h] at hthere
  cases hthere
  rw [hnone] at hnode
  cases hnode

/-- A path that ends with a component names what is at its place, unless the system does not take
it. -/
theorem node?_of_placeOf (h : w.files.WellFormed) (hplace : w.placeOf p = some place)
    (hlast : ∀ piece ∈ p.pieces.getLast?, (Path.component? piece).isSome)
    (htaken : FileTree.checkPath p = .ok ()) : w.node? p = w.files.get? place := by
  apply Option.ext
  intro node
  apply Iff.intro
  · intro hnode
    obtain ⟨there, hthere, hnode⟩ := exists_placeOf_of_node? hnode
    rw [hplace] at hthere
    cases hthere
    exact hnode
  · intro hnode
    have hsome : (w.files.get? place).isSome := by
      rw [hnode]
      rfl
    have hwalk := (h.walk_eq_ok_iff hplace hlast hsome).mpr rfl
    exact node?_eq_some_iff.mpr ⟨place, FileTree.resolve_eq_ok_iff.mpr ⟨htaken, hwalk⟩, hnode⟩

end RuleLens.World
