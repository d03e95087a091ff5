import RuleLens.Path
import RuleLens.Proofs.Text

/-!
# Paths joined and taken apart

What is joined to a path is what follows that path again, and the components of both stand one
behind the other.  Names that an entry of a directory may have are components as they stand.
-/

namespace RuleLens.Path

variable {p q : Path} {front body tail : List (List Char)} {names : List String}

/-! ## 1. Pieces -/

theorem pieces_ne_nil (p : Path) : p.pieces ≠ [] :=
  List.splitOn_ne_nil '/' p.text.toList

theorem joinPieces_pieces (p : Path) : joinPieces p.pieces = p.text.toList :=
  List.intercalate_splitOn '/'

theorem pieces_eq_singleton_nil_iff : p.pieces = [[]] ↔ p.text = "" := by
  apply Iff.intro
  · intro h
    have htext := joinPieces_pieces p
    rw [h] at htext
    exact String.toList_eq_nil_iff.mp htext.symm
  · intro h
    unfold pieces
    rw [h]
    rfl

theorem mem_joinPieces {pieces : List (List Char)} {piece : List Char} {c : Char}
    (hpiece : piece ∈ pieces) (hc : c ∈ piece) : c ∈ joinPieces pieces := by
  unfold joinPieces
  induction pieces with
  | nil => exact absurd hpiece List.not_mem_nil
  | cons first rest ih =>
    by_cases hrest : rest = []
    · rw [hrest, List.mem_singleton] at hpiece
      rw [hrest, List.intercalate_singleton, ← hpiece]
      exact hc
    · rw [List.intercalate_cons_of_ne_nil hrest]
      rcases List.mem_cons.mp hpiece with rfl | hpiece
      · exact List.mem_append_left _ (List.mem_append_left _ hc)
      · exact List.mem_append_right _ (ih hpiece)

/-- A join puts at most a slash between two paths. -/
theorem exists_join_eq (hp : p.text ≠ "") :
    ∃ sep, (sep = "" ∧ p.text.toList.getLast? = some '/' ∨ sep = "/") ∧
      ∀ q : Path, q.isAbsolute = false → p.join q = ⟨p.text ++ sep ++ q.text⟩ := by
  have hempty : p.text.isEmpty = false := by
    rw [← Bool.not_eq_true, String.isEmpty_iff]
    exact hp
  by_cases hlast : p.text.toList.getLast? = some '/'
  · refine ⟨"", .inl ⟨rfl, hlast⟩, fun q hq => ?_⟩
    simp [join, hq, hempty, hlast]
  · refine ⟨"/", .inr rfl, fun q hq => ?_⟩
    simp [join, hq, hempty, hlast]

/-- A join has the pieces of both paths.  An empty piece at the end of the first one goes. -/
theorem exists_pieces_join (hq : q.isAbsolute = false) (hp : p.text ≠ "") :
    ∃ front, (p.join q).pieces = front ++ q.pieces ∧
      (p.pieces = front ∨ p.pieces = front ++ [[]]) := by
  obtain ⟨sep, hsep, hjoin⟩ := exists_join_eq hp
  unfold pieces
  rw [hjoin q hq, String.toList_append, String.toList_append]
  rcases hsep with ⟨rfl, hlast⟩ | rfl
  · obtain ⟨text, htext⟩ := List.getLast?_eq_some_iff.mp hlast
    refine ⟨text.splitOn '/', ?_, .inr ?_⟩
    · rw [htext, String.toList_empty, List.append_nil, List.append_assoc, List.singleton_append,
        List.splitOn_append_cons_self]
    · rw [htext, List.splitOn_append_cons_self, List.splitOn_nil]
  · refine ⟨p.text.toList.splitOn '/', ?_, .inl rfl⟩
    rw [List.append_assoc]
    exact List.splitOn_append_cons_self ..

theorem text_join_ne_empty (hq : q.isAbsolute = false) (hne : q.text ≠ "") :
    (p.join q).text ≠ "" := by
  by_cases hp : p.text = ""
  · unfold join
    simpa [hp] using hne
  · obtain ⟨sep, -, hjoin⟩ := exists_join_eq hp
    rw [hjoin q hq]
    simp [hp]

theorem isAbsolute_join (hq : q.isAbsolute = false) (hp : p.text ≠ "") :
    (p.join q).isAbsolute = p.isAbsolute := by
  obtain ⟨sep, -, hjoin⟩ := exists_join_eq hp
  obtain ⟨c, rest, htext⟩ := List.exists_cons_of_ne_nil (mt String.toList_eq_nil_iff.mp hp)
  unfold isAbsolute
  rw [hjoin q hq, String.toList_append, String.toList_append, htext]
  rfl

/-! ## 2. Components -/

theorem anchor_root {rest : List (List Char)} (h : rest ≠ []) :
    anchor ([] :: rest) = (some .root, rest) := by
  cases rest with
  | nil => exact absurd rfl h
  | cons piece rest => rfl

theorem anchor_of_ne {piece : List Char} (h : piece ≠ []) (h' : piece ≠ ['.'])
    (rest : List (List Char)) : anchor (piece :: rest) = (none, piece :: rest) := by
  unfold anchor
  split
  · rename_i heq
    cases heq
    exact absurd rfl h
  · rename_i heq
    cases heq
    exact absurd rfl h'
  · rfl

theorem filterMap_anchor (pieces : List (List Char)) :
    (anchor pieces).2.filterMap component? = pieces.filterMap component? := by
  unfold anchor
  split <;> rfl

theorem components_eq (p : Path) :
    p.components = (anchor p.pieces).1.toList ++ p.pieces.filterMap component? := by
  rw [← filterMap_anchor]
  rfl

/-- A join starts like the first path, and the pieces of the second one stand at its end. -/
theorem exists_anchor_join (hq : q.isAbsolute = false) (hp : p.text ≠ "") :
    ∃ body, anchor (p.join q).pieces = ((anchor p.pieces).1, body ++ q.pieces) ∧
      body.filterMap component? = p.pieces.filterMap component? := by
  obtain ⟨front, hjoin, hfront⟩ := exists_pieces_join hq hp
  have hsteps : p.pieces.filterMap component? = front.filterMap component? := by
    rcases hfront with h | h
    · rw [h]
    · rw [h]
      simp [component?]
  have hempty : p.pieces ≠ [[]] := fun h => hp (pieces_eq_singleton_nil_iff.mp h)
  rw [hjoin, hsteps]
  match front with
  | [] =>
    rcases hfront with h | h
    · exact absurd h (pieces_ne_nil p)
    · exact absurd h hempty
  | piece :: rest =>
    have hstart : ∃ rest', p.pieces = piece :: rest' ∧ (piece = [] → rest' ≠ []) := by
      rcases hfront with h | h
      · refine ⟨rest, h, ?_⟩
        rintro rfl rfl
        exact hempty h
      · rw [List.cons_append] at h
        exact ⟨rest ++ [[]], h, fun _ => by simp⟩
    obtain ⟨rest', hpieces, hrest'⟩ := hstart
    rw [hpieces]
    by_cases hroot : piece = []
    · subst hroot
      refine ⟨rest, ?_, rfl⟩
      rw [anchor_root (hrest' rfl), List.cons_append, anchor_root]
      simp [pieces_ne_nil]
    by_cases hdot : piece = ['.']
    · subst hdot
      exact ⟨rest, rfl, rfl⟩
    · refine ⟨piece :: rest, ?_, rfl⟩
      rw [anchor_of_ne hroot hdot, List.cons_append, anchor_of_ne hroot hdot]

theorem components_join (hq : q.isAbsolute = false) (hp : p.text ≠ "") :
    (p.join q).components = p.components ++ q.pieces.filterMap component? := by
  obtain ⟨body, hjoin, hbody⟩ := exists_anchor_join hq hp
  rw [components, hjoin, components_eq p, List.filterMap_append, hbody, List.append_assoc]

/-! ## 3. What follows a prefix -/

/-- Behind the components of some pieces comes what follows these pieces, but for pieces that do not
count. -/
theorem exists_foldlM_dropComponent? (body tail : List (List Char)) :
    ∃ rest,
      (body.filterMap component?).foldlM (fun left c => dropComponent? c left) (body ++ tail) =
        some rest ∧
      rest.dropWhile (component? · |>.isNone) = tail.dropWhile (component? · |>.isNone) := by
  induction body with
  | nil => exact ⟨tail, rfl, rfl⟩
  | cons piece body ih =>
    obtain ⟨rest, hrest, hdrop⟩ := ih
    cases hpiece : component? piece with
    | some c =>
      refine ⟨rest, ?_, hdrop⟩
      rw [List.filterMap_cons_some hpiece, List.foldlM_cons]
      simp [dropComponent?, hpiece, hrest]
    | none =>
      rw [List.filterMap_cons_none hpiece]
      cases hsteps : body.filterMap component? with
      | nil =>
        rw [hsteps] at hrest
        cases hrest
        refine ⟨_, rfl, ?_⟩
        rw [List.cons_append, List.dropWhile_cons_of_pos (by simp [hpiece]), hdrop]
      | cons c steps =>
        -- the next component is looked for behind this piece
        refine ⟨rest, ?_, hdrop⟩
        rw [hsteps, List.foldlM_cons] at hrest
        rw [List.foldlM_cons, List.cons_append, dropComponent?, hpiece]
        exact hrest

/-- A path that starts with a component and ends with one. -/
structure IsTight (q : Path) : Prop where
  head : ∀ piece ∈ q.pieces.head?, (component? piece).isSome
  last : ∀ piece ∈ q.pieces.getLast?, (component? piece).isSome

theorem IsTight.isAbsolute (h : q.IsTight) : q.isAbsolute = false := by
  rw [← Bool.not_eq_true]
  intro habsolute
  obtain ⟨text, htext⟩ := List.head?_eq_some_iff.mp (of_decide_eq_true habsolute)
  have hpieces : q.pieces = [] :: text.splitOn '/' := by
    unfold pieces
    rw [htext]
    exact List.splitOn_append_cons_self [] text
  have hhead := h.head [] (by rw [hpieces]; rfl)
  cases hhead

theorem IsTight.text_ne_empty (h : q.IsTight) : q.text ≠ "" := by
  intro hempty
  have hhead := h.head [] (by rw [pieces_eq_singleton_nil_iff.mpr hempty]; rfl)
  cases hhead

theorem components_ne_nil (hp : p.text ≠ "") : p.components ≠ [] := by
  have hempty : p.pieces ≠ [[]] := fun h => hp (pieces_eq_singleton_nil_iff.mp h)
  unfold components
  match hpieces : p.pieces with
  | [] => exact absurd hpieces (pieces_ne_nil p)
  | piece :: rest =>
    by_cases hroot : piece = []
    · subst hroot
      have hrest : rest ≠ [] := fun h => hempty (by rw [hpieces, h])
      simp [anchor_root hrest]
    by_cases hdot : piece = ['.']
    · subst hdot
      simp [anchor]
    · rw [anchor_of_ne hroot hdot]
      by_cases hparent : piece = ['.', '.'] <;> simp [component?, hroot, hdot, hparent]

theorem dropWhile_of_head? (h : ∀ piece ∈ front.head?, (component? piece).isSome) :
    front.dropWhile (component? · |>.isNone) = front := by
  cases front with
  | nil => rfl
  | cons piece rest =>
    have hpiece := h piece rfl
    rw [List.dropWhile_cons_of_neg]
    rw [Option.isSome_iff_ne_none] at hpiece
    simpa using hpiece

theorem trimPieces_of_getLast? (h : ∀ piece ∈ front.getLast?, (component? piece).isSome) :
    trimPieces front = front := by
  unfold trimPieces
  rw [dropWhile_of_head?, List.reverse_reverse]
  intro piece hpiece
  rw [List.head?_reverse] at hpiece
  exact h piece hpiece

/-- Behind a path of any components, what is left over once they are dropped follows it. -/
theorem stripPrefix?_of_anchor (hp : p.text ≠ "")
    (h : anchor q.pieces = ((anchor p.pieces).1, body ++ tail))
    (hbody : body.filterMap component? = p.pieces.filterMap component?) :
    stripPrefix? p q = some ⟨String.ofList (joinPieces (trimPieces
      (tail.dropWhile (component? · |>.isNone))))⟩ := by
  obtain ⟨rest, hrest, hdrop⟩ := exists_foldlM_dropComponent? body tail
  have hne := components_ne_nil hp
  rw [components, filterMap_anchor] at hne
  rw [hbody] at hrest
  unfold stripPrefix?
  simp only [h, filterMap_anchor]
  split
  · rename_i hstart hsteps
    rw [hstart, hsteps] at hne
    exact absurd rfl hne
  · rw [if_pos trivial, hrest]
    show some _ = some _
    rw [hdrop]

/-- What was joined to a path follows it. -/
theorem stripPrefix?_join (hp : p.text ≠ "") (htight : q.IsTight) :
    stripPrefix? p (p.join q) = some q := by
  obtain ⟨body, hjoin, hbody⟩ := exists_anchor_join htight.isAbsolute hp
  rw [stripPrefix?_of_anchor hp hjoin hbody, dropWhile_of_head? htight.head,
    trimPieces_of_getLast? htight.last, joinPieces_pieces, String.ofList_toList]

theorem stripPrefix?_self (hp : p.text ≠ "") : stripPrefix? p p = some ⟨""⟩ := by
  have hanchor : anchor p.pieces = ((anchor p.pieces).1, (anchor p.pieces).2 ++ []) := by
    rw [List.append_nil]
  exact stripPrefix?_of_anchor hp hanchor (filterMap_anchor _)

/-! ## 4. Names -/

/-- A name that an entry of a directory may have. -/
structure IsName (name : String) : Prop where
  not_empty : name ≠ ""
  not_current : name ≠ "."
  not_parent : name ≠ ".."
  no_slash : '/' ∉ name.toList
  no_nul : '\x00' ∉ name.toList

instance (name : String) : Decidable (IsName name) :=
  decidable_of_iff
    (name ≠ "" ∧ name ≠ "." ∧ name ≠ ".." ∧ '/' ∉ name.toList ∧ '\x00' ∉ name.toList)
    ⟨fun ⟨h₁, h₂, h₃, h₄, h₅⟩ => ⟨h₁, h₂, h₃, h₄, h₅⟩,
      fun ⟨h₁, h₂, h₃, h₄, h₅⟩ => ⟨h₁, h₂, h₃, h₄, h₅⟩⟩

theorem IsName.component? {name : String} (h : IsName name) :
    Path.component? name.toList = some (.name name) := by
  have hempty : name.toList ≠ [] := fun heq => h.not_empty (String.toList_eq_nil_iff.mp heq)
  have hcurrent : name.toList ≠ ['.'] := fun heq => h.not_current (String.toList_inj.mp heq)
  have hparent : name.toList ≠ ['.', '.'] := fun heq => h.not_parent (String.toList_inj.mp heq)
  unfold Path.component?
  rw [if_neg (by simp [hempty, hcurrent]), if_neg hparent, String.ofList_toList]

theorem isName_of_component? {name : String} {piece : List Char}
    (h : Path.component? piece = some (.name name)) (hslash : '/' ∉ piece) (hnul : '\x00' ∉ piece) :
    IsName name ∧ name.toList = piece := by
  unfold Path.component? at h
  split at h
  · cases h
  rename_i hcounts
  split at h
  · cases h
  rename_i hparent
  cases h
  rw [not_or] at hcounts
  have hne : ∀ text : String, piece ≠ text.toList → String.ofList piece ≠ text := by
    rintro text htext rfl
    exact htext String.toList_ofList.symm
  refine ⟨⟨hne _ hcounts.1, hne _ hcounts.2, hne _ hparent, ?_, ?_⟩, String.toList_ofList⟩
  · rw [String.toList_ofList]
    exact hslash
  · rw [String.toList_ofList]
    exact hnul

/-- The path of some names. -/
def ofNames (names : List String) : Path := ⟨"/".intercalate names⟩

theorem pieces_ofNames (hne : names ≠ []) (h : ∀ name ∈ names, IsName name) :
    (ofNames names).pieces = names.map String.toList := by
  unfold pieces ofNames
  rw [String.toList_intercalate]
  apply List.splitOn_intercalate
  · simpa using fun name hname => (h name hname).no_slash
  · simpa using hne

theorem filterMap_names (h : ∀ name ∈ names, IsName name) :
    (names.map String.toList).filterMap component? = names.map .name := by
  induction names with
  | nil => rfl
  | cons name names ih =>
    rw [List.map_cons, List.filterMap_cons_some (h name List.mem_cons_self).component?, ih]
    · rfl
    · exact fun other hother => h other (List.mem_cons_of_mem name hother)

theorem isTight_ofNames (hne : names ≠ []) (h : ∀ name ∈ names, IsName name) :
    (ofNames names).IsTight := by
  have hcounts : ∀ piece ∈ names.map String.toList, (component? piece).isSome := by
    intro piece hpiece
    obtain ⟨name, hname, rfl⟩ := List.mem_map.mp hpiece
    rw [(h name hname).component?]
    rfl
  constructor
  · intro piece hpiece
    rw [pieces_ofNames hne h] at hpiece
    exact hcounts piece (List.mem_of_mem_head? hpiece)
  · intro piece hpiece
    rw [pieces_ofNames hne h] at hpiece
    exact hcounts piece (List.mem_of_mem_getLast? hpiece)

theorem nul_not_mem_ofNames (h : ∀ name ∈ names, IsName name) :
    '\x00' ∉ (ofNames names).text.toList := by
  unfold ofNames
  induction names with
  | nil => exact List.not_mem_nil
  | cons name names ih =>
    have hname := (h name List.mem_cons_self).no_nul
    have hrest := ih fun other hother => h other (List.mem_cons_of_mem name hother)
    by_cases hnil : names = []
    · rw [hnil, String.intercalate_singleton]
      exact hname
    · rw [String.intercalate_cons_of_ne_nil hnil]
      simp only [String.toList_append, List.mem_append, not_or]
      exact ⟨⟨hname, by decide⟩, hrest⟩

theorem nul_not_mem_join (hp : p.text ≠ "") (hne : names ≠ []) (h : ∀ name ∈ names, IsName name) :
    '\x00' ∉ (p.join (ofNames names)).text.toList ↔ '\x00' ∉ p.text.toList := by
  obtain ⟨sep, hsep, hjoin⟩ := exists_join_eq hp
  have hnames := nul_not_mem_ofNames h
  rw [hjoin _ (isTight_ofNames hne h).isAbsolute]
  rcases hsep with ⟨rfl, -⟩ | rfl <;> simp [hnames]

/-- The path of an entry is at least as long as those of the entries above it. -/
theorem utf8ByteSize_join_append {rel : List String} (hp : p.text ≠ "") (hne : names ≠ [])
    (h : ∀ name ∈ names ++ rel, IsName name) :
    (p.join (ofNames names)).text.utf8ByteSize ≤
      (p.join (ofNames (names ++ rel))).text.utf8ByteSize := by
  obtain ⟨sep, -, hjoin⟩ := exists_join_eq hp
  have hnames : ∀ name ∈ names, IsName name := fun name hname =>
    h name (List.mem_append_left _ hname)
  rw [hjoin _ (isTight_ofNames hne hnames).isAbsolute,
    hjoin _ (isTight_ofNames (List.append_ne_nil_of_left_ne_nil hne rel) h).isAbsolute]
  by_cases hrel : rel = []
  · exact Nat.le_of_eq (by rw [hrel, List.append_nil])
  · unfold ofNames
    rw [String.intercalate_append_of_ne_nil hne hrel]
    simp only [String.utf8ByteSize_append]
    omega

theorem components_join_ofNames (hp : p.text ≠ "") (hne : names ≠ [])
    (h : ∀ name ∈ names, IsName name) :
    (p.join (ofNames names)).components = p.components ++ names.map .name := by
  rw [components_join (isTight_ofNames hne h).isAbsolute hp, pieces_ofNames hne h,
    filterMap_names h]

theorem components_ofNames (hne : names ≠ []) (h : ∀ name ∈ names, IsName name) :
    (ofNames names).components = names.map .name := by
  have htight := isTight_ofNames hne h
  rw [components_eq, pieces_ofNames hne h, filterMap_names h]
  cases names with
  | nil => exact absurd rfl hne
  | cons name names =>
    have hcomponent := (h name List.mem_cons_self).component?
    rw [List.map_cons, anchor_of_ne]
    · rfl
    · intro hempty
      rw [hempty] at hcomponent
      cases hcomponent
    · intro hdot
      rw [hdot] at hcomponent
      cases hcomponent

/-! ## 5. File names -/

/-- An extension without dots stands behind the last dot of a file name, which is not the first
character. -/
theorem extension?_eq_some_iff {extension : String} (hdot : '.' ∉ extension.toList) :
    p.extension? = some extension ↔
      ∃ stem, stem ≠ "" ∧ p.fileName? = some (stem ++ "." ++ extension) := by
  unfold extension?
  cases p.fileName? with
  | none => simp
  | some name =>
    simp only [Option.bind_eq_bind, Option.bind_some, Option.some.injEq]
    apply Iff.intro
    · intro h
      split at h
      · cases h
      · cases h
      · cases h
      · rename_i hnil hone htwo
        rw [Option.map_eq_some_iff] at h
        obtain ⟨last, hlast, rfl⟩ := h
        obtain ⟨front, hfront⟩ := List.getLast?_eq_some_iff.mp hlast
        have hfrontNil : front ≠ [] := by
          rintro rfl
          exact hone last hfront
        have hname : ['.'].intercalate (name.toList.splitOn '.') = name.toList :=
          List.intercalate_splitOn '.'
        rw [hfront, Text.intercalate_concat_of_ne_nil hfrontNil] at hname
        refine ⟨String.ofList (['.'].intercalate front), ?_, ?_⟩
        · -- a stem without characters would have the dot in front of it as its only one
          intro hstem
          rw [String.ofList_eq_empty_iff] at hstem
          rcases Text.eq_of_intercalate_eq_nil hstem with rfl | rfl
          · exact hfrontNil rfl
          · exact htwo last hfront
        · rw [← String.ofList_toList (s := name), ← hname]
          apply String.toList_inj.mp
          simp
    · rintro ⟨stem, hstem, rfl⟩
      have hpieces : (stem ++ "." ++ extension).toList.splitOn '.' =
          stem.toList.splitOn '.' ++ [extension.toList] := by
        rw [String.toList_append, String.toList_append, List.append_assoc]
        exact (List.splitOn_append_cons_self ..).trans
          (congrArg _ (List.splitOn_eq_singleton hdot))
      have hjoined : ['.'].intercalate (stem.toList.splitOn '.') = stem.toList :=
        List.intercalate_splitOn '.'
      have hstem' : stem.toList ≠ [] := fun heq => hstem (String.toList_eq_nil_iff.mp heq)
      rw [hpieces]
      generalize stem.toList.splitOn '.' = front at hjoined
      split
      · rename_i heq
        exact absurd heq (List.concat_ne_nil _ _)
      · rename_i last heq
        have heq : front ++ [extension.toList] = [] ++ [last] := heq
        obtain ⟨rfl, -⟩ := List.append_inj' heq rfl
        exact absurd hjoined.symm hstem'
      · rename_i last heq
        have heq : front ++ [extension.toList] = [[]] ++ [last] := heq
        obtain ⟨rfl, -⟩ := List.append_inj' heq rfl
        exact absurd hjoined.symm hstem'
      · rw [List.getLast?_concat, Option.map_some, String.ofList_toList]

/-- Rule files have a name in front of one of two extensions. -/
theorem isRuleFile_iff :
    p.isRuleFile = true ↔
      ∃ stem extension, stem ≠ "" ∧ extension ∈ ["yara", "yar"] ∧
        p.fileName? = some (stem ++ "." ++ extension) := by
  unfold isRuleFile
  rw [Bool.or_eq_true, decide_eq_true_iff, decide_eq_true_iff, extension?_eq_some_iff (by decide),
    extension?_eq_some_iff (by decide)]
  apply Iff.intro
  · rintro (⟨stem, hstem, hname⟩ | ⟨stem, hstem, hname⟩)
    · exact ⟨stem, _, hstem, by simp, hname⟩
    · exact ⟨stem, _, hstem, by simp, hname⟩
  · rintro ⟨stem, extension, hstem, hextension, hname⟩
    simp only [List.mem_cons, List.not_mem_nil, or_false] at hextension
    rcases hextension with rfl | rfl
    · exact .inl ⟨stem, hstem, hname⟩
    · exact .inr ⟨stem, hstem, hname⟩

/-! ## 6. Paths above a path -/

/-- Only an absolute path starts with the root. -/
theorem isAbsolute_iff : p.isAbsolute = true ↔ p.components.head? = some .root := by
  have htext := joinPieces_pieces p
  unfold isAbsolute components
  rw [decide_eq_true_iff, ← htext]
  match hpieces : p.pieces with
  | [] => exact absurd hpieces (pieces_ne_nil p)
  | [[]] => exact iff_of_false nofun nofun
  | [] :: piece :: rest => exact iff_of_true (by simp [joinPieces, List.intercalate_cons_cons]) rfl
  | (c :: piece) :: rest =>
    have hslash : c ≠ '/' := by
      rintro rfl
      have hmem : '/' :: piece ∈ p.pieces := by
        rw [hpieces]
        exact List.mem_cons_self
      exact Text.not_mem_of_mem_splitOn hmem List.mem_cons_self
    apply iff_of_false
    · cases rest <;> simp [joinPieces, List.intercalate_cons_cons, hslash]
    · by_cases hdot : c :: piece = ['.']
      · rw [hdot]
        nofun
      · rw [anchor_of_ne (List.cons_ne_nil c piece) hdot]
        by_cases hparent : c :: piece = ['.', '.'] <;> simp [component?, hdot, hparent]

theorem filterMap_dropWhile (pieces : List (List Char)) :
    (pieces.dropWhile (component? · |>.isNone)).filterMap component? =
      pieces.filterMap component? := by
  induction pieces with
  | nil => rfl
  | cons piece pieces ih =>
    cases hpiece : component? piece with
    | none => rw [List.dropWhile_cons_of_pos (by simp [hpiece]), ih,
        List.filterMap_cons_none hpiece]
    | some c => rw [List.dropWhile_cons_of_neg (by simp [hpiece])]

theorem filterMap_trimPieces (pieces : List (List Char)) :
    (trimPieces pieces).filterMap component? = pieces.filterMap component? := by
  unfold trimPieces
  rw [List.filterMap_reverse, filterMap_dropWhile, List.filterMap_reverse, List.reverse_reverse]

theorem trimPieces_prefix_self (pieces : List (List Char)) : trimPieces pieces <+: pieces := by
  unfold trimPieces
  rw [← List.reverse_suffix, List.reverse_reverse]
  exact List.dropWhile_suffix _

/-- Pieces that are written out are read again, unless there are none. -/
theorem pieces_joinPieces {pieces : List (List Char)} (hne : pieces ≠ [])
    (hslash : ∀ piece ∈ pieces, '/' ∉ piece) :
    (⟨String.ofList (joinPieces pieces)⟩ : Path).pieces = pieces := by
  show (String.ofList (joinPieces pieces)).toList.splitOn '/' = pieces
  rw [String.toList_ofList]
  exact List.splitOn_intercalate '/' hslash hne

/-- A path starts with the root, with a dot or, unless it is empty, with a component. -/
theorem anchor_cases {pieces rest : List (List Char)} {start : Option Component}
    (h : anchor pieces = (start, rest)) (hempty : pieces ≠ [[]]) :
    start = some .root ∨ start = some .current ∨
      start = none ∧ ∀ piece ∈ rest.head?, (component? piece).isSome := by
  match pieces with
  | [] =>
    cases h
    exact .inr (.inr ⟨rfl, nofun⟩)
  | piece :: pieces =>
    by_cases hroot : piece = []
    · have hpieces : pieces ≠ [] := fun hnil => hempty (by rw [hroot, hnil])
      rw [hroot, anchor_root hpieces] at h
      cases h
      exact .inl rfl
    by_cases hdot : piece = ['.']
    · rw [hdot] at h
      cases h
      exact .inr (.inl rfl)
    · rw [anchor_of_ne hroot hdot] at h
      cases h
      refine .inr (.inr ⟨rfl, ?_⟩)
      rintro piece ⟨⟩
      by_cases hparent : piece = ['.', '.'] <;> simp [component?, hroot, hdot, hparent]

theorem trimPieces_cases (pieces : List (List Char)) :
    trimPieces pieces = [] ∨
      ∃ front last c, trimPieces pieces = front ++ [last] ∧ component? last = some c := by
  unfold trimPieces
  cases hdrop : pieces.reverse.dropWhile (component? · |>.isNone) with
  | nil => exact .inl rfl
  | cons last rest =>
    have hlast := List.head?_dropWhile_not (component? · |>.isNone) pieces.reverse
    rw [hdrop] at hlast
    obtain ⟨c, hc⟩ := Option.isSome_iff_exists.mp (Option.isNone_eq_false_iff.mp hlast)
    exact .inr ⟨rest.reverse, last, c, List.reverse_cons, hc⟩

/-- Pieces behind a start are written so that they are read as the same components. -/
theorem components_ofPieces {start : Option Component} {pieces : List (List Char)}
    (hstart : start = some .root ∨ start = some .current ∨
      start = none ∧ ∀ piece ∈ pieces.head?, (component? piece).isSome)
    (hslash : ∀ piece ∈ pieces, '/' ∉ piece) :
    (ofPieces start pieces).components = start.toList ++ pieces.filterMap component? := by
  have hbody : ∀ piece ∈ trimPieces pieces, '/' ∉ piece := fun piece hpiece =>
    hslash piece ((trimPieces_prefix_self pieces).mem hpiece)
  rw [← filterMap_trimPieces pieces]
  rcases hstart with rfl | rfl | ⟨rfl, hhead⟩
  · show (⟨String.ofList ('/' :: joinPieces (trimPieces pieces))⟩ : Path).components = _
    cases htrim : trimPieces pieces with
    | nil => rfl
    | cons piece rest =>
      have hjoin : '/' :: joinPieces (piece :: rest) = joinPieces ([] :: piece :: rest) := by
        simp [joinPieces, List.intercalate_cons_cons]
      rw [hjoin, components, pieces_joinPieces (List.cons_ne_nil _ _)]
      · rfl
      · rw [← htrim]
        simpa using hbody
  · show (⟨String.ofList (joinPieces (['.'] :: trimPieces pieces))⟩ : Path).components = _
    rw [components, pieces_joinPieces (List.cons_ne_nil _ _)]
    · rfl
    · simpa using hbody
  · show (⟨String.ofList (joinPieces (trimPieces pieces))⟩ : Path).components = _
    cases htrim : trimPieces pieces with
    | nil => rfl
    | cons piece rest =>
      obtain ⟨behind, hbehind⟩ := trimPieces_prefix_self pieces
      have hpiece : (component? piece).isSome := by
        apply hhead
        rw [← hbehind, htrim]
        rfl
      have hne : piece ≠ [] ∧ piece ≠ ['.'] := by
        constructor <;> (rintro rfl; cases hpiece)
      rw [components, pieces_joinPieces (List.cons_ne_nil _ _), anchor_of_ne hne.1 hne.2]
      rw [← htrim]
      exact hbody

theorem anchor_suffix (pieces : List (List Char)) : (anchor pieces).2 <:+ pieces := by
  unfold anchor
  split
  · exact List.suffix_cons _ _
  · exact List.suffix_cons _ _
  · exact List.suffix_refl _

/-- The path above a path has all its components but the last. -/
theorem components_of_parent? (h : p.parent? = some q) : q.components = p.components.dropLast := by
  have hempty : p.pieces ≠ [[]] := by
    intro hpieces
    unfold parent? at h
    rw [hpieces] at h
    cases h
  cases hanchor : anchor p.pieces with
  | mk start body =>
    have hsuffix := anchor_suffix p.pieces
    have hcomponents : p.components = start.toList ++ (trimPieces body).filterMap component? := by
      rw [filterMap_trimPieces, components, hanchor]
    have hstart := anchor_cases hanchor hempty
    unfold parent? at h
    simp only [hanchor] at h hsuffix
    rw [hcomponents]
    rcases trimPieces_cases body with htrim | ⟨front, last, c, htrim, hc⟩
    · -- only a start that is a dot has a path above it
      rw [htrim] at h ⊢
      rcases hstart with rfl | rfl | ⟨rfl, -⟩ <;> cases h
      rfl
    · have hq : q = ofPieces start front := by
        have hfront : (front ++ [last]).dropLast = front := List.dropLast_concat
        rw [htrim] at h
        cases front <;> rcases hstart with rfl | rfl | ⟨rfl, -⟩ <;> cases h <;> rw [hfront]
      have hfront : front <+: body := (List.prefix_append front [last]).trans
        (htrim ▸ trimPieces_prefix_self body)
      have hhead : ∀ piece ∈ front.head?, piece ∈ body.head? := by
        intro piece hpiece
        obtain ⟨rest, rfl⟩ := hfront
        rw [List.head?_append, hpiece]
        rfl
      rw [hq, components_ofPieces, htrim, List.filterMap_append, List.filterMap_cons_some hc,
        ← List.append_assoc]
      · exact List.dropLast_concat.symm
      · exact hstart.imp_right (Or.imp_right (And.imp_right fun hcounts piece hpiece =>
          hcounts piece (hhead piece hpiece)))
      · exact fun piece hpiece =>
          Text.not_mem_of_mem_splitOn (hsuffix.mem (hfront.mem hpiece))

/-- The paths above a path have fewer of its components. -/
theorem components_prefix_of_mem_ancestors (h : q ∈ p.ancestors) :
    q.components <+: p.components := by
  unfold ancestors at h
  generalize p.components.length = n at h
  induction n generalizing p with
  | zero =>
    obtain rfl := List.mem_singleton.mp h
    exact List.prefix_refl _
  | succ n ih =>
    unfold ancestorsUpTo at h
    split at h
    · rename_i above habove
      rcases List.mem_cons.mp h with rfl | h
      · exact List.prefix_refl _
      · have hprefix := ih h
        rw [components_of_parent? habove] at hprefix
        exact hprefix.trans (List.dropLast_prefix _)
    · obtain rfl := List.mem_singleton.mp h
      exact List.prefix_refl _

end RuleLens.Path
