import RuleLens.Proofs.Tree

/-!
# Trees that grow

A path has a place in a tree even where its entry is missing, as long as no `..` of it leaves a
directory that is missing.  Making directories and writing files puts entries at such places and
changes nothing else, so what has a place elsewhere is found as before.
-/

namespace RuleLens.FileTree

open RuleLens.Path (IsName)

variable {t t' : FileTree} {here there place dir cwd names : Names} {name : String} {node : Node}
  {p : Path} {pieces front : List (List Char)} {steps : List Component}

/-! ## 1. Places -/

/-- The names to which components lead from the entry `here`.  What they name may be missing, but
not what they leave. -/
def placeFrom (t : FileTree) (here : Names) : List Component → Option Names
  | [] => some here
  | .name name :: rest => t.placeFrom (here ++ [name]) rest
  | .parent :: rest => if t.isDirectory here then t.placeFrom here.dropLast rest else none
  | _ :: rest => t.placeFrom here rest

/-- The names to which a path leads. -/
def place? (t : FileTree) (cwd : Names) (p : Path) : Option Names :=
  t.placeFrom (base cwd p) p.components

theorem placeFrom_append (t : FileTree) (here : Names) (steps rest : List Component) :
    t.placeFrom here (steps ++ rest) =
      (t.placeFrom here steps).bind fun there => t.placeFrom there rest := by
  induction steps generalizing here with
  | nil => rfl
  | cons c steps ih =>
    cases c with
    | root => exact ih here
    | current => exact ih here
    | name name => exact ih (here ++ [name])
    | parent =>
      rw [List.cons_append, placeFrom, placeFrom]
      split
      · exact ih here.dropLast
      · rfl

theorem placeFrom_names (t : FileTree) (here names : Names) :
    t.placeFrom here (names.map .name) = some (here ++ names) := by
  induction names generalizing here with
  | nil => rw [List.map_nil, placeFrom, List.append_nil]
  | cons name names ih =>
    rw [List.map_cons, placeFrom, ih, List.append_assoc, List.singleton_append]

/-- The start of a path leads nowhere by itself. -/
theorem place?_eq (t : FileTree) (cwd : Names) (p : Path) :
    t.place? cwd p = t.placeFrom (base cwd p) (p.pieces.filterMap Path.component?) := by
  have hstart : ∀ here, t.placeFrom here (Path.anchor p.pieces).1.toList = some here := by
    intro here
    unfold Path.anchor
    split <;> rfl
  rw [place?, Path.components_eq, placeFrom_append, hstart]
  rfl

theorem component?_cases {piece : List Char} {c : Component} (h : Path.component? piece = some c) :
    c = .parent ∨ c = .name (String.ofList piece) := by
  unfold Path.component? at h
  split at h
  · cases h
  split at h <;> cases h
  · exact .inl rfl
  · exact .inr rfl

/-- A path that leads to an entry leads to its place. -/
theorem placeFrom_of_walk (h : t.walk here pieces = .ok there) :
    t.placeFrom here (pieces.filterMap Path.component?) = some there := by
  induction pieces generalizing here with
  | nil =>
    cases h
    rfl
  | cons piece rest ih =>
    rw [walk] at h
    split at h
    · cases h
    rename_i hdir
    cases hpiece : Path.component? piece with
    | none =>
      rw [hpiece] at h
      rw [List.filterMap_cons_none hpiece]
      exact ih h
    | some c =>
      rw [hpiece] at h
      rw [List.filterMap_cons_some hpiece]
      rcases component?_cases hpiece with rfl | rfl
      · rw [placeFrom, if_pos (by simpa using hdir)]
        exact ih h
      · dsimp only at h
        split at h
        · cases h
        split at h
        · cases h
        exact ih h

theorem place?_of_resolve (h : t.resolve cwd p = .ok there) : t.place? cwd p = some there := by
  rw [place?_eq]
  exact placeFrom_of_walk (resolve_eq_ok_iff.mp h).2

/-- On the way to a place there are only directories and entries above the place. -/
theorem WellFormed.prefix_or_isDirectory (h : t.WellFormed)
    (hplace : t.placeFrom here steps = some place) :
    here <+: place ∨ t.isDirectory here = true := by
  induction steps generalizing here with
  | nil =>
    cases hplace
    exact .inl (List.prefix_refl _)
  | cons c steps ih =>
    cases c with
    | root => exact ih hplace
    | current => exact ih hplace
    | name name =>
      rcases ih hplace with hprefix | hdir
      · exact .inl ((List.prefix_append here [name]).trans hprefix)
      · refine .inr (h.isDirectory here name ?_)
        rw [isDirectory_iff.mp hdir]
        rfl
    | parent =>
      rw [placeFrom] at hplace
      split at hplace
      · rename_i hdir
        exact .inr hdir
      · cases hplace

theorem WellFormed.isSome_of_placeFrom (h : t.WellFormed)
    (hplace : t.placeFrom here steps = some place) (hentry : (t.get? place).isSome) :
    (t.get? here).isSome := by
  rcases h.prefix_or_isDirectory hplace with ⟨rest, rfl⟩ | hdir
  · exact h.isSome_of_append hentry
  · rw [isDirectory_iff.mp hdir]
    rfl

/-- What a step leaves is a directory, and a last piece that counts is left over for the first
step. -/
theorem WellFormed.isDirectory_of_placeFrom (h : t.WellFormed) {piece : List Char}
    (hplace : t.placeFrom here ((piece :: pieces).filterMap Path.component?) = some place)
    (hentry : (t.get? place).isSome)
    (hlast : ∀ last ∈ (piece :: pieces).getLast?, (Path.component? last).isSome) :
    t.isDirectory here = true := by
  obtain ⟨c, steps, hsteps⟩ :
      ∃ c steps, (piece :: pieces).filterMap Path.component? = c :: steps := by
    apply List.exists_cons_of_ne_nil
    rw [Ne, List.filterMap_eq_nil_iff]
    intro hnone
    have hcounts := hlast _ (List.getLast?_eq_some_getLast (List.cons_ne_nil piece pieces))
    rw [hnone _ (List.getLast_mem _)] at hcounts
    cases hcounts
  have hmem : c ∈ (piece :: pieces).filterMap Path.component? := by
    rw [hsteps]
    exact List.mem_cons_self
  obtain ⟨first, -, hfirst⟩ := List.mem_filterMap.mp hmem
  rw [hsteps] at hplace
  rcases component?_cases hfirst with rfl | rfl
  · rw [placeFrom] at hplace
    split at hplace
    · rename_i hdir
      exact hdir
    · cases hplace
  · exact h.isDirectory here _ (h.isSome_of_placeFrom hplace hentry)

/-- If there is an entry at the place of a path, all that lies on the way is there. -/
theorem WellFormed.walk_of_placeFrom (h : t.WellFormed)
    (hplace : t.placeFrom here (pieces.filterMap Path.component?) = some place)
    (hentry : (t.get? place).isSome)
    (hlast : ∀ piece ∈ pieces.getLast?, (Path.component? piece).isSome) :
    t.walk here pieces = .ok place := by
  induction pieces generalizing here with
  | nil =>
    cases hplace
    rfl
  | cons piece rest ih =>
    have hrest : ∀ piece ∈ rest.getLast?, (Path.component? piece).isSome := by
      intro other hother
      apply hlast
      rw [List.getLast?_cons, hother]
      rfl
    have hdir := h.isDirectory_of_placeFrom hplace hentry hlast
    cases hpiece : Path.component? piece with
    | none =>
      rw [List.filterMap_cons_none hpiece] at hplace
      rw [walk, hdir, hpiece]
      exact ih hplace hrest
    | some c =>
      rw [List.filterMap_cons_some hpiece] at hplace
      rcases component?_cases hpiece with rfl | rfl
      · rw [placeFrom, if_pos hdir] at hplace
        rw [walk, hdir, hpiece]
        exact ih hplace hrest
      · have hsome : (t.get? (here ++ [String.ofList piece])).isSome :=
          h.isSome_of_placeFrom hplace hentry
        rw [walk_cons_name hdir hpiece (h.isName here _ hsome).2 hsome]
        exact ih hplace hrest

/-! ## 2. New entries -/

/-- A path leads into the directory `dir`, where its last piece is a name. -/
structure Encloses (t : FileTree) (cwd : Names) (p : Path) (dir : Names) (name : String) :
    Prop where
  taken : checkPath p = .ok ()
  isDirectory : t.isDirectory dir = true
  isName : IsName name ∧ name.utf8ByteSize ≤ maxNameBytes
  walk : ∃ front rest, p.pieces = front ++ name.toList :: rest ∧ (∀ piece ∈ rest, piece = []) ∧
    t.walk (base cwd p) front = .ok dir

/-- Empty pieces at the end of a path do not count. -/
theorem exists_pieces_eq_append_nil (pieces : List (List Char)) :
    ∃ rest, pieces = (pieces.reverse.dropWhile List.isEmpty).reverse ++ rest ∧
      ∀ piece ∈ rest, piece = [] := by
  refine ⟨(pieces.reverse.takeWhile List.isEmpty).reverse, ?_, ?_⟩
  · rw [← List.reverse_append, List.takeWhile_append_dropWhile, List.reverse_reverse]
  · intro piece hpiece
    have hall : (pieces.reverse.takeWhile List.isEmpty).all List.isEmpty = true :=
      List.all_takeWhile
    exact List.isEmpty_iff.mp (List.all_eq_true.mp hall piece (List.mem_reverse.mp hpiece))

theorem encloses_of_enclosing {last : List Char} (h : t.enclosing cwd p = .ok (dir, last))
    (hname : Path.component? last = some (.name name)) (hsize : name.utf8ByteSize ≤ maxNameBytes) :
    Encloses t cwd p dir name := by
  unfold enclosing at h
  obtain ⟨⟨⟩, htaken, h⟩ := bind_eq_ok_iff.mp h
  obtain ⟨dir', hwalk, h⟩ := bind_eq_ok_iff.mp h
  split at h
  · rename_i hdir
    cases h
    obtain ⟨rest, hrest, hempty⟩ := exists_pieces_eq_append_nil p.pieces
    generalize (p.pieces.reverse.dropWhile List.isEmpty).reverse = counted at *
    have hcounted : counted ≠ [] := by
      rintro rfl
      cases hname
    have hsplit : p.pieces = counted.dropLast ++ counted.getLastD [] :: rest := by
      rw [hrest, ← List.dropLast_concat_getLast hcounted]
      simp
    have hmem : counted.getLastD [] ∈ p.pieces := by
      rw [hsplit]
      simp
    obtain ⟨hisName, hpiece⟩ := Path.isName_of_component? hname
      (Text.not_mem_of_mem_splitOn hmem) (fun hnul => by
        have hfree := (checkPath_eq_ok_iff.mp htaken).2.1
        rw [← Path.joinPieces_pieces] at hfree
        exact hfree (Path.mem_joinPieces hmem hnul))
    exact ⟨htaken, hdir, ⟨hisName, hsize⟩, counted.dropLast, rest, by rw [hpiece, hsplit], hempty,
      hwalk⟩
  · cases h

/-- What a directory is made for has no entry yet. -/
theorem exists_of_makeDirectory (h : t.makeDirectory cwd p = .ok t') :
    ∃ dir name, Encloses t cwd p dir name ∧ t.get? (dir ++ [name]) = none ∧
      t' = t.insert (dir ++ [name]) .directory := by
  unfold makeDirectory at h
  obtain ⟨⟨dir, last⟩, henclosing, h⟩ := bind_eq_ok_iff.mp h
  dsimp only at h
  split at h
  · rename_i name hname
    split at h
    · cases h
    rename_i hsize
    split at h
    · cases h
    rename_i hnone
    cases h
    exact ⟨dir, name, encloses_of_enclosing henclosing hname (Nat.le_of_not_lt hsize),
      Option.not_isSome_iff_eq_none.mp hnone, rfl⟩
  · cases h

/-- What a file is written to is no directory. -/
theorem exists_of_writeFile {content : ByteArray} (h : t.writeFile cwd p content = .ok t') :
    ∃ dir name executable, Encloses t cwd p dir name ∧
      t.get? (dir ++ [name]) ≠ some .directory ∧
      t' = t.insert (dir ++ [name]) (.file content executable) := by
  unfold writeFile at h
  obtain ⟨⟨dir, last⟩, henclosing, h⟩ := bind_eq_ok_iff.mp h
  dsimp only at h
  split at h
  · rename_i name hname
    split at h
    · cases h
    rename_i hsize
    have hencloses := encloses_of_enclosing henclosing hname (Nat.le_of_not_lt hsize)
    split at h
    · cases h
    · rename_i old executable hold
      cases h
      exact ⟨dir, name, executable, hencloses, by rw [hold]; nofun, rfl⟩
    · rename_i hnone
      cases h
      exact ⟨dir, name, false, hencloses, by rw [hnone]; nofun, rfl⟩
  · cases h

/-- An entry is made at the place of its path. -/
theorem Encloses.place?_eq_some (h : Encloses t cwd p dir name) :
    t.place? cwd p = some (dir ++ [name]) := by
  obtain ⟨front, rest, hpieces, hempty, hwalk⟩ := h.walk
  have hrest : rest.filterMap Path.component? = [] := by
    rw [List.filterMap_eq_nil_iff]
    intro piece hpiece
    rw [hempty piece hpiece]
    rfl
  rw [place?_eq, hpieces, List.filterMap_append, List.filterMap_cons_some h.isName.1.component?,
    hrest, placeFrom_append, placeFrom_of_walk hwalk]
  rfl

theorem Encloses.eq_of_place? (h : Encloses t cwd p dir name)
    (hplace : t.place? cwd p = some place) : place = dir ++ [name] := by
  rw [h.place?_eq_some] at hplace
  exact (Option.some.inj hplace).symm

/-! ## 3. What a tree keeps -/

/-- Every entry of the one tree is one of the other. -/
def Keeps (t t' : FileTree) : Prop :=
  ∀ names node, t.get? names = some node → t'.get? names = some node

theorem Keeps.isDirectory (h : Keeps t t') (hdir : t.isDirectory names = true) :
    t'.isDirectory names = true :=
  isDirectory_iff.mpr (h names _ (isDirectory_iff.mp hdir))

theorem keeps_insert (h : t.get? (dir ++ [name]) = none) (node : Node) :
    Keeps t (t.insert (dir ++ [name]) node) := by
  intro names other hother
  rw [get?_insert (List.concat_ne_nil name dir), if_neg]
  · exact hother
  · rintro rfl
    rw [h] at hother
    cases hother

/-- A new entry that takes the place of no directory leaves all directories there. -/
theorem isDirectory_insert (h : t.get? (dir ++ [name]) ≠ some .directory)
    (hdir : t.isDirectory names = true) :
    (t.insert (dir ++ [name]) node).isDirectory names = true := by
  rw [isDirectory_iff] at hdir ⊢
  rw [get?_insert (List.concat_ne_nil name dir), if_neg]
  · exact hdir
  · rintro rfl
    exact h hdir

/-- A path keeps its place while the directories stay. -/
theorem placeFrom_of_directories
    (h : ∀ names, t.isDirectory names = true → t'.isDirectory names = true)
    (hplace : t.placeFrom here steps = some place) : t'.placeFrom here steps = some place := by
  induction steps generalizing here with
  | nil => exact hplace
  | cons c steps ih =>
    cases c with
    | root => exact ih hplace
    | current => exact ih hplace
    | name name => exact ih hplace
    | parent =>
      rw [placeFrom] at hplace ⊢
      split at hplace
      · rename_i hdir
        rw [if_pos (h _ hdir)]
        exact ih hplace
      · cases hplace

theorem Keeps.placeFrom (h : Keeps t t') (hplace : t.placeFrom here steps = some place) :
    t'.placeFrom here steps = some place :=
  placeFrom_of_directories (fun _ => h.isDirectory) hplace

/-! ## 4. Making the directories above a place -/

/-- The second tree has the entries of the first one and otherwise only directories on the way to a
place. -/
structure GrownTo (place : Names) (t t' : FileTree) : Prop where
  wellFormed : t'.WellFormed
  keeps : Keeps t t'
  adds : ∀ names, t.get? names = none →
    t'.get? names = none ∨ (t'.get? names = some .directory ∧ names <+: place)

theorem GrownTo.refl (h : t.WellFormed) (place : Names) : GrownTo place t t :=
  ⟨h, fun _ _ hnode => hnode, fun _ hnone => .inl hnone⟩

theorem GrownTo.trans {t'' : FileTree} (h : GrownTo place t t') (h' : GrownTo place t' t'') :
    GrownTo place t t'' where
  wellFormed := h'.wellFormed
  keeps := fun names node hnode => h'.keeps names node (h.keeps names node hnode)
  adds := by
    intro names hnone
    rcases h.adds names hnone with hnone' | ⟨hdir, hprefix⟩
    · exact h'.adds names hnone'
    · exact .inr ⟨h'.keeps names _ hdir, hprefix⟩

/-- The path leads on the way to a place, or to a directory that is there. -/
def LeadsOnWay (t : FileTree) (cwd place : Names) (p : Path) : Prop :=
  ∃ there, t.place? cwd p = some there ∧ (there <+: place ∨ t.isDirectory there = true)

theorem LeadsOnWay.keeps (h : LeadsOnWay t cwd place p) (hkeeps : Keeps t t') :
    LeadsOnWay t' cwd place p := by
  obtain ⟨there, hthere, hway⟩ := h
  exact ⟨there, hkeeps.placeFrom hthere, hway.imp_right hkeeps.isDirectory⟩

theorem grownTo_makeDirectory (h : t.WellFormed) (hway : LeadsOnWay t cwd place p)
    (hmake : t.makeDirectory cwd p = .ok t') : GrownTo place t t' := by
  obtain ⟨there, hthere, hway⟩ := hway
  obtain ⟨dir, name, hencloses, hnone, rfl⟩ := exists_of_makeDirectory hmake
  obtain rfl := hencloses.eq_of_place? hthere
  have hprefix : dir ++ [name] <+: place := by
    rcases hway with hprefix | hdir
    · exact hprefix
    · rw [isDirectory_iff, hnone] at hdir
      cases hdir
  refine ⟨h.insert hencloses.isDirectory hencloses.isName fun _ => rfl, keeps_insert hnone _, ?_⟩
  intro names hnone'
  rw [get?_insert (List.concat_ne_nil name dir)]
  split
  · rename_i heq
    exact .inr ⟨rfl, heq ▸ hprefix⟩
  · exact .inl hnone'

/-- Whatever becomes of making directories, the tree has come about by making one after the
other. -/
theorem makeDirectories_induction {r : FileTree → FileTree → Prop} {above : List Path}
    (hrefl : ∀ t, r t t) (htrans : ∀ {t t' t''}, r t t' → r t' t'' → r t t'')
    (hmake : ∀ {t t'}, ∀ p ∈ above, p.text ≠ "" → t.makeDirectory cwd p = .ok t' → r t t')
    (t : FileTree) : r t (t.makeDirectories cwd above).1 := by
  induction above with
  | nil => exact hrefl t
  | cons p above ih =>
    have hrest := ih fun q hq => hmake q (List.mem_cons_of_mem p hq)
    rw [makeDirectories]
    split
    · exact hrefl t
    rename_i htext
    have hp : ∀ {t t'}, t.makeDirectory cwd p = .ok t' → r t t' :=
      hmake p List.mem_cons_self fun hempty => htext (String.isEmpty_iff.mpr hempty)
    split
    · rename_i made hmade
      exact hp hmade
    · split
      · split
        · rename_i heq
          rw [heq] at hrest
          exact hrest
        · rename_i grown heq
          rw [heq] at hrest
          split
          · rename_i made hmade
            exact htrans hrest (hp hmade)
          · exact hrest
      · exact hrefl t

/-- Only missing directories on the way to a place are made. -/
theorem grownTo_makeDirectories {above : List Path} (h : t.WellFormed)
    (habove : ∀ p ∈ above, p.text ≠ "" → LeadsOnWay t cwd place p) :
    GrownTo place t (t.makeDirectories cwd above).1 := by
  -- the paths still lead on the way when some of the directories have been made
  refine makeDirectories_induction (r := fun t t' => t.WellFormed →
    (∀ p ∈ above, p.text ≠ "" → LeadsOnWay t cwd place p) → GrownTo place t t') ?_ ?_ ?_ t h habove
  · exact fun t hwell _ => .refl hwell place
  · intro t t' t'' hfirst hsecond hwell hway
    have hgrown := hfirst hwell hway
    exact hgrown.trans (hsecond hgrown.wellFormed fun p hp htext => (hway p hp htext).keeps
      hgrown.keeps)
  · exact fun p hp htext hmade hwell hway => grownTo_makeDirectory hwell (hway p hp htext) hmade

/-- The paths above a path lead on the way to its place. -/
theorem WellFormed.leadsOnWay_of_mem_ancestors (h : t.WellFormed)
    (hplace : t.place? cwd p = some place) {q : Path} (hq : q ∈ p.ancestors) (htext : q.text ≠ "") :
    LeadsOnWay t cwd place q := by
  obtain ⟨rest, hrest⟩ := Path.components_prefix_of_mem_ancestors hq
  have hbase : base cwd p = base cwd q := by
    have hhead : p.components.head? = q.components.head? := by
      obtain ⟨c, steps, hsteps⟩ := List.exists_cons_of_ne_nil (Path.components_ne_nil htext)
      rw [← hrest, hsteps]
      rfl
    have habsolute : p.isAbsolute = q.isAbsolute := by
      rw [Bool.eq_iff_iff, Path.isAbsolute_iff, Path.isAbsolute_iff, hhead]
    unfold base
    rw [habsolute]
  unfold place? at hplace
  rw [← hrest, placeFrom_append, hbase, Option.bind_eq_some_iff] at hplace
  obtain ⟨there, hthere, hplace⟩ := hplace
  exact ⟨there, hthere, h.prefix_or_isDirectory hplace⟩

/-- A path that ends with a component leads to what is at its place. -/
theorem WellFormed.walk_eq_ok_iff (h : t.WellFormed) (hplace : t.place? cwd p = some place)
    (hlast : ∀ piece ∈ p.pieces.getLast?, (Path.component? piece).isSome)
    (hentry : (t.get? place).isSome) :
    t.walk (base cwd p) p.pieces = .ok there ↔ there = place := by
  rw [place?_eq] at hplace
  rw [h.walk_of_placeFrom hplace hentry hlast]
  exact ⟨fun heq => (Except.ok.inj heq).symm, fun heq => by rw [heq]⟩

end RuleLens.FileTree
