import RuleLens.World.Tree
import RuleLens.Proofs.Failing
import RuleLens.Proofs.Path

/-!
# File trees

In a well-formed tree every entry lies in a directory and has a name that can be one.  A path of
such names leads to the entry with these names, and the entries below a directory come in the order
of their names.
-/

namespace RuleLens.FileTree

open RuleLens.Path (IsName ofNames)

variable {t : FileTree} {here there names rel cwd : Names} {name : String} {node : Node}
  {root p : Path} {front rest : List (List Char)}

/-! ## 1. Entries -/

theorem get?_of_ne_nil (h : names ≠ []) : t.get? names = t.nodes[names]? := by
  unfold get?
  rw [if_neg (by simpa using h)]

theorem get?_concat (t : FileTree) (names : Names) (name : String) :
    t.get? (names ++ [name]) = t.nodes[names ++ [name]]? :=
  get?_of_ne_nil (List.concat_ne_nil name names)

theorem isDirectory_iff : t.isDirectory names = true ↔ t.get? names = some .directory := by
  unfold isDirectory
  split
  · rename_i h
    exact iff_of_true rfl h
  · rename_i h
    exact iff_of_false Bool.false_ne_true h

theorem get?_insert (h : names ≠ []) (other : Names) :
    (t.insert names node).get? other = if names = other then some node else t.get? other := by
  unfold insert get?
  split
  · rename_i hother
    rw [List.isEmpty_iff] at hother
    rw [if_neg (by rw [hother]; exact h)]
  · rw [Std.TreeMap.getElem?_insert]
    simp only [Std.LawfulEqCmp.compare_eq_iff_eq]

/-- A tree as a disk may hold it. -/
structure WellFormed (t : FileTree) : Prop where
  isDirectory : ∀ names name, (t.get? (names ++ [name])).isSome → t.isDirectory names = true
  isName : ∀ names name, (t.get? (names ++ [name])).isSome →
    IsName name ∧ name.utf8ByteSize ≤ maxNameBytes

/-- Only the entries that are there have to be looked at. -/
theorem wellFormed_iff :
    t.WellFormed ↔ ∀ entry ∈ t.nodes.toList, ∀ name ∈ entry.1.getLast?,
      t.isDirectory entry.1.dropLast = true ∧ IsName name ∧ name.utf8ByteSize ≤ maxNameBytes := by
  apply Iff.intro
  · rintro h ⟨entry, node⟩ hentry name hname
    rw [Std.TreeMap.mem_toList_iff_getElem?_eq_some] at hentry
    obtain ⟨names, rfl⟩ := List.getLast?_eq_some_iff.mp hname
    have hsome : (t.get? (names ++ [name])).isSome := by
      rw [get?_concat, hentry]
      rfl
    rw [List.dropLast_concat]
    exact ⟨h.isDirectory names name hsome, h.isName names name hsome⟩
  · intro h
    have hentry : ∀ names name, (t.get? (names ++ [name])).isSome →
        t.isDirectory names = true ∧ IsName name ∧ name.utf8ByteSize ≤ maxNameBytes := by
      intro names name hsome
      obtain ⟨node, hnode⟩ := Option.isSome_iff_exists.mp hsome
      rw [get?_concat, ← Std.TreeMap.mem_toList_iff_getElem?_eq_some] at hnode
      have hall := h _ hnode name (List.getLast?_concat ..)
      rw [List.dropLast_concat] at hall
      exact hall
    exact ⟨fun names name hsome => (hentry names name hsome).1,
      fun names name hsome => (hentry names name hsome).2⟩

instance (t : FileTree) : Decidable t.WellFormed :=
  decidable_of_iff _ wellFormed_iff.symm

/-- A tree stays well-formed when a directory gets a new entry, or when a file is replaced. -/
theorem WellFormed.insert (h : t.WellFormed) (hdir : t.isDirectory names = true)
    (hname : IsName name ∧ name.utf8ByteSize ≤ maxNameBytes)
    (hnode : t.isDirectory (names ++ [name]) = true → node = .directory) :
    (t.insert (names ++ [name]) node).WellFormed where
  isDirectory := by
    intro dir other hother
    have hdirectory : t.isDirectory dir = true := by
      rw [get?_insert (List.concat_ne_nil name names)] at hother
      split at hother
      · rename_i heq
        rw [(List.append_inj' heq rfl).1] at hdir
        exact hdir
      · exact h.isDirectory dir other hother
    rw [isDirectory_iff, get?_insert (List.concat_ne_nil name names)]
    split
    · rename_i heq
      rw [hnode (by rw [heq]; exact hdirectory)]
    · exact isDirectory_iff.mp hdirectory
  isName := by
    intro dir other hother
    rw [get?_insert (List.concat_ne_nil name names)] at hother
    split at hother
    · rename_i heq
      have hlast := (List.append_inj' heq rfl).2
      rw [List.singleton_inj.mp hlast] at hname
      exact hname
    · exact h.isName dir other hother

/-! ## 2. Entries above an entry -/

/-- What lies above an entry is a directory. -/
theorem WellFormed.isDirectory_of_append (h : t.WellFormed) (hrel : rel ≠ [])
    (hentry : (t.get? (names ++ rel)).isSome) : t.isDirectory names = true := by
  induction rel generalizing names with
  | nil => exact absurd rfl hrel
  | cons name rel ih =>
    rw [List.append_cons] at hentry
    apply h.isDirectory names name
    by_cases hnil : rel = []
    · rw [hnil, List.append_nil] at hentry
      exact hentry
    · rw [isDirectory_iff.mp (ih hnil hentry)]
      rfl

theorem WellFormed.isSome_of_append (h : t.WellFormed) (hentry : (t.get? (names ++ rel)).isSome) :
    (t.get? names).isSome := by
  by_cases hrel : rel = []
  · rw [hrel, List.append_nil] at hentry
    exact hentry
  · rw [isDirectory_iff.mp (h.isDirectory_of_append hrel hentry)]
    rfl

theorem WellFormed.isName_of_mem (h : t.WellFormed) (hentry : (t.get? names).isSome)
    (hname : name ∈ names) : IsName name ∧ name.utf8ByteSize ≤ maxNameBytes := by
  obtain ⟨front, rest, rfl⟩ := List.append_of_mem hname
  apply h.isName front name
  rw [List.append_cons] at hentry
  exact h.isSome_of_append hentry

/-! ## 3. Paths of names -/

theorem walk_append (t : FileTree) (here : Names) (front rest : List (List Char)) :
    t.walk here (front ++ rest) = (t.walk here front >>= fun there => t.walk there rest) := by
  induction front generalizing here with
  | nil => rfl
  | cons piece front ih =>
    rw [List.cons_append, walk, walk]
    split
    · rfl
    split
    · split
      · rfl
      split
      · rfl
      · exact ih _
    · exact ih _
    · exact ih _

/-- A slash at the end of a path demands a directory. -/
theorem walk_concat_nil :
    t.walk here (front ++ [[]]) = .ok there ↔
      t.walk here front = .ok there ∧ t.isDirectory there = true := by
  rw [walk_append, bind_eq_ok_iff]
  apply Iff.intro
  · rintro ⟨names, hfront, hlast⟩
    rw [walk] at hlast
    split at hlast
    · cases hlast
    · rename_i hdir
      cases hlast
      rw [Bool.not_eq_true', Bool.not_eq_false] at hdir
      exact ⟨hfront, hdir⟩
  · rintro ⟨hfront, hdir⟩
    refine ⟨there, hfront, ?_⟩
    rw [walk, hdir]
    rfl

/-- A piece that is the name of an entry leads on to it. -/
theorem walk_cons_name {piece : List Char} (hdir : t.isDirectory here = true)
    (hname : Path.component? piece = some (.name name)) (hsize : name.utf8ByteSize ≤ maxNameBytes)
    (hentry : (t.get? (here ++ [name])).isSome) :
    t.walk here (piece :: rest) = t.walk (here ++ [name]) rest := by
  rw [walk, hdir, hname]
  simp only [Bool.not_true, Bool.false_eq_true, if_false, Nat.not_lt.mpr hsize,
    Option.isNone_iff_eq_none, Option.isSome_iff_ne_none.mp hentry]

/-- The names of an entry lead there. -/
theorem WellFormed.walk_names (h : t.WellFormed) (hentry : (t.get? (here ++ names)).isSome) :
    t.walk here (names.map String.toList) = .ok (here ++ names) := by
  induction names generalizing here with
  | nil =>
    rw [List.append_nil]
    rfl
  | cons name names ih =>
    have hdir := h.isDirectory_of_append (List.cons_ne_nil name names) hentry
    rw [List.append_cons] at hentry
    have hsome := h.isSome_of_append hentry
    have hname := h.isName here name hsome
    rw [List.map_cons, walk_cons_name hdir hname.1.component? hname.2 hsome, ih hentry,
      ← List.append_cons]

theorem checkPath_eq_ok_iff :
    checkPath p = .ok () ↔
      p.text ≠ "" ∧ '\x00' ∉ p.text.toList ∧ p.text.utf8ByteSize ≤ maxPathBytes := by
  unfold checkPath checkText
  by_cases hempty : p.text = ""
  · simp [hempty, bind, Except.bind]
  by_cases hnul : '\x00' ∈ p.text.toList
  · simp [hempty, hnul, bind, Except.bind]
  by_cases hsize : p.text.utf8ByteSize ≤ maxPathBytes
  · simp [hempty, hnul, hsize, bind, Except.bind, pure, Except.pure]
  · have hlong : maxPathBytes < p.text.utf8ByteSize := Nat.lt_of_not_le hsize
    simp [hempty, hnul, hlong, hsize, bind, Except.bind, throw, throwThe, MonadExceptOf.throw]

theorem resolve_eq_ok_iff :
    t.resolve cwd p = .ok names ↔
      checkPath p = .ok () ∧ t.walk (base cwd p) p.pieces = .ok names := by
  unfold resolve
  rw [bind_eq_ok_iff]
  apply Iff.intro
  · rintro ⟨⟨⟩, hcheck, hwalk⟩
    exact ⟨hcheck, hwalk⟩
  · rintro ⟨hcheck, hwalk⟩
    exact ⟨(), hcheck, hwalk⟩

theorem base_join (cwd : Names) (hrel : rel ≠ []) (hnames : ∀ name ∈ rel, IsName name)
    (hroot : root.text ≠ "") : base cwd (root.join (ofNames rel)) = base cwd root := by
  unfold base
  rw [Path.isAbsolute_join (Path.isTight_ofNames hrel hnames).isAbsolute hroot]

/-- The path of an entry below a root leads there, unless it is longer than the system takes. -/
theorem WellFormed.resolve_join (h : t.WellFormed) (hroot : t.resolve cwd root = .ok names)
    (hrel : rel ≠ []) (hentry : (t.get? (names ++ rel)).isSome) {found : Names} :
    t.resolve cwd (root.join (ofNames rel)) = .ok found ↔
      found = names ++ rel ∧ (root.join (ofNames rel)).text.utf8ByteSize ≤ maxPathBytes := by
  have hnames : ∀ name ∈ rel, IsName name := fun name hname =>
    (h.isName_of_mem hentry (List.mem_append_right names hname)).1
  rw [resolve_eq_ok_iff, checkPath_eq_ok_iff] at hroot
  obtain ⟨⟨htext, hnul, -⟩, hwalk⟩ := hroot
  have htight := Path.isTight_ofNames hrel hnames
  have hrelative := htight.isAbsolute
  obtain ⟨front, hjoin, hfront⟩ := Path.exists_pieces_join hrelative htext
  have hthere : t.walk (base cwd root) front = .ok names := by
    rcases hfront with hpieces | hpieces
    · rw [← hpieces]
      exact hwalk
    · rw [hpieces, walk_concat_nil] at hwalk
      exact hwalk.1
  have hbelow : t.walk (base cwd root) (root.join (ofNames rel)).pieces = .ok (names ++ rel) := by
    rw [hjoin, walk_append, hthere, Path.pieces_ofNames hrel hnames]
    exact h.walk_names hentry
  rw [resolve_eq_ok_iff, checkPath_eq_ok_iff, base_join cwd hrel hnames htext, hbelow,
    Path.nul_not_mem_join htext hrel hnames]
  apply Iff.intro
  · rintro ⟨⟨-, -, hsize⟩, hfound⟩
    exact ⟨(Except.ok.inj hfound).symm, hsize⟩
  · rintro ⟨rfl, hsize⟩
    exact ⟨⟨Path.text_join_ne_empty hrelative htight.text_ne_empty, hnul, hsize⟩, rfl⟩

/-! ## 4. The order of entries -/

theorem compare_append {α : Type} [Ord α] [Std.ReflOrd α] (front a b : List α) :
    compare (front ++ a) (front ++ b) = compare a b := by
  induction front with
  | nil => rfl
  | cons x front ih =>
    rw [List.cons_append, List.cons_append, List.compare_cons_cons, Std.ReflOrd.compare_self, ih]
    rfl

theorem mem_below :
    (rel, node) ∈ t.below names ↔ rel ≠ [] ∧ t.get? (names ++ rel) = some node := by
  unfold below
  rw [List.mem_filterMap]
  apply Iff.intro
  · rintro ⟨⟨entry, other⟩, hentry, hsome⟩
    rw [Std.TreeMap.mem_toList_iff_getElem?_eq_some] at hentry
    simp only [Bool.and_eq_true, List.isPrefixOf_iff_prefix, decide_eq_true_eq] at hsome
    split at hsome
    · rename_i hbelow
      obtain ⟨⟨rest, rfl⟩, hlength⟩ := hbelow
      rw [List.drop_left] at hsome
      cases hsome
      have hrel : rel ≠ [] := by
        rintro rfl
        simp at hlength
      rw [get?_of_ne_nil (List.append_ne_nil_of_right_ne_nil names hrel)]
      exact ⟨hrel, hentry⟩
    · cases hsome
  · rintro ⟨hrel, hentry⟩
    rw [get?_of_ne_nil (List.append_ne_nil_of_right_ne_nil names hrel)] at hentry
    refine ⟨(names ++ rel, node), Std.TreeMap.mem_toList_iff_getElem?_eq_some.mpr hentry, ?_⟩
    have hlength := List.length_pos_iff.mpr hrel
    simp [hlength]

/-- The entries below a directory come strictly in the order of their names. -/
theorem pairwise_below (t : FileTree) (dir : Names) :
    (t.below dir).Pairwise fun a b => compare a.1 b.1 = .lt := by
  unfold below
  rw [List.pairwise_filterMap]
  refine Std.TreeMap.ordered_keys_toList.imp ?_
  rintro ⟨a, node⟩ ⟨b, node'⟩ hlt c hc d hd
  simp only [Bool.and_eq_true, List.isPrefixOf_iff_prefix, Option.ite_none_right_eq_some] at hc hd
  obtain ⟨⟨⟨rest, rfl⟩, -⟩, hc⟩ := hc
  obtain ⟨⟨⟨rest', rfl⟩, -⟩, hd⟩ := hd
  cases hc
  cases hd
  rw [List.drop_left, List.drop_left]
  rw [compare_append] at hlt
  exact hlt

end RuleLens.FileTree
