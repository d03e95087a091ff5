import RuleLens.Config.Store
import RuleLens.Proofs.Utf8
import RuleLens.Proofs.World

/-!
# Configuration files written and read

Writing the default configuration where there is no file changes no answer: the file is read as what
its absence counts for, and nothing else is changed that a configuration is read from.  A path with
a `..` out of a missing directory is the exception, since making the directory may bring it to life.
-/

namespace RuleLens

variable {w w' : World} {p q root : Path} {place : Names} {content : ByteArray} {text : String}

namespace Config

/-! ## 1. The default configuration as a text -/

theorem toList_entry (name value : String) :
    (entry name value).toList = name.toList ++ [' ', '=', ' '] ++ value.toList ++ ['\n'] := by
  unfold entry
  rw [String.toList_append, String.toList_append, String.toList_append, String.toList_ofList,
    String.toList_ofList]

theorem toList_listed {items : List String} (h : items ≠ []) :
    (listed items).toList =
      ['[', '\n'] ++
        items.flatMap (fun s => [' ', ' ', ' ', ' '] ++ (quoted s).toList ++ [',', '\n']) ++
        [']'] := by
  unfold listed
  rw [if_neg (by simpa using h), String.toList_append, String.toList_append,
    String.toList_join, List.flatMap_map, String.toList_ofList, String.toList_ofList]
  simp

/-- The text of the default configuration. -/
def defaultText : String :=
  "[compiler]\ntimeout_secs = 30\n\n[completion]\nrequire_imports = false\n\n[workspace]\n" ++
  "max_files = 100\nmax_concurrent = 4\nmax_file_size_mb = 5\nignored_paths = [\n" ++
  "    \".git\",\n    \"node_modules\",\n    \"target\",\n    \".yaralens\",\n]\n"

theorem toText_default : default.toText = defaultText := by
  apply String.toList_inj.mp
  unfold toText defaultText
  simp only [String.toList_append, toList_entry, default, Option.map_none, Option.getD_none,
    Bool.false_eq_true, if_false, ne_eq, List.cons_ne_nil, not_false_iff, toList_listed,
    List.flatMap_cons, List.flatMap_nil, quoted, String.toList_ofList]
  repeat rw [String.toList_ofList]
  rfl

/-- The reader's fuel is one more than the length of the text, which is spelled out here to keep the
next computation small. -/
theorem read?_defaultText :
    Toml.read? defaultText.toList =
      (Toml.readStatements 220 ⟨.empty .explicit, []⟩ defaultText.toList).map (·.root.close) := by
  have hlength : defaultText.toList.length = 219 := by
    unfold defaultText
    rw [String.toList_append, String.toList_append]
    repeat rw [String.toList_ofList]
    decide +kernel
  obtain ⟨rest, hrest⟩ : ∃ rest, defaultText.toList = '[' :: rest := by
    unfold defaultText
    rw [String.toList_append, String.toList_append]
    repeat rw [String.toList_ofList]
    exact ⟨_, rfl⟩
  rw [hrest] at hlength ⊢
  show (Toml.readStatements (('[' :: rest).length + 1) _ _ >>= fun p => some p.root.close) = _
  rw [hlength, Option.map_eq_bind]
  rfl

theorem ofChars?_defaultText : ofChars? defaultText.toList = some default := by
  have hfields : (Toml.read? defaultText.toList).any (fun entries =>
      decide (fieldOr entries "compiler" compiler? {} = some {} ∧
        fieldOr entries "completion" completion? {} = some {} ∧
        fieldOr entries "workspace" workspace? {} = some {})) = true := by
    rw [read?_defaultText]
    unfold defaultText
    rw [String.toList_append, String.toList_append]
    repeat rw [String.toList_ofList]
    decide +kernel
  obtain ⟨entries, hentries, hfields⟩ := (Option.any_eq_true _ _).mp hfields
  obtain ⟨hcompiler, hcompletion, hworkspace⟩ := of_decide_eq_true hfields
  unfold ofChars?
  rw [hentries]
  simp only [Option.bind_eq_bind, Option.bind_some, hcompiler, hcompletion, hworkspace]
  rfl

/-! ## 2. Loading -/

/-- The configuration that the bytes of a file describe. -/
def ofContent (content : ByteArray) : Except ConfigError Config :=
  match Text.Utf8.decode? content.data.toList with
  | none => .error (.io .notUtf8)
  | some text =>
    match ofChars? text with
    | some c => .ok c
    | none => .error .parse

/-- What is loaded depends on the entry at the path alone. -/
theorem loadFile_eq (w : World) (p : Path) :
    loadFile w p = match w.node? p with
      | none => .ok default
      | some .directory => .error (.io .isADirectory)
      | some (.file content _) => ofContent content := by
  unfold loadFile World.pathExists World.readText
  cases hnode : w.node? p with
  | none => rfl
  | some node =>
    cases node with
    | directory =>
      rw [World.read_of_directory hnode]
      rfl
    | file content executable =>
      rw [World.read_of_file hnode]
      unfold ofContent
      cases hdecode : Text.Utf8.decode? content.data.toList with
      | none => simp [bind, Except.bind, hdecode]
      | some text =>
        simp only [bind, Except.bind, hdecode]
        cases ofChars? text <;> rfl

theorem loadFile_congr (h : w.node? p = w'.node? p) : loadFile w p = loadFile w' p := by
  rw [loadFile_eq, loadFile_eq, h]

theorem ofContent_toUTF8 (text : String) :
    ofContent text.toUTF8 = match ofChars? text.toList with
      | some c => .ok c
      | none => .error .parse := by
  unfold ofContent
  rw [Text.Utf8.decode?_toUTF8]

/-- A file with the default configuration is read as what its absence counts for. -/
theorem loadFile_of_default {executable : Bool}
    (h : w.node? p = some (.file default.toText.toUTF8 executable)) :
    loadFile w p = .ok default := by
  rw [loadFile_eq, h]
  show ofContent default.toText.toUTF8 = .ok default
  rw [ofContent_toUTF8, toText_default, ofChars?_defaultText]

/-- Worlds that differ in their files alone have the same configurations in force if they have the
same in their files. -/
theorem load_congr (hsame : ∃ files, w' = { w with files })
    (hfile : ∀ file, loadFile w' (path w root file) = loadFile w (path w root file))
    (asked : Bool) : load w' root asked = load w root asked := by
  obtain ⟨files, rfl⟩ := hsame
  have hpath : ∀ file, path { w with files } root file = path w root file := fun _ => rfl
  unfold load
  rw [hpath, hpath, hfile, hfile]

/-! ## 3. Writing -/

/-- A file is written once all directories above it are there, into one of them. -/
theorem exists_of_writeWithParents (h : writeWithParents w p text = (w', .ok ())) :
    ∃ grown dir name executable, w.files.makeDirectories w.cwd p.ancestors.tail = (grown, .ok ()) ∧
      grown.Encloses w.cwd p dir name ∧ grown.get? (dir ++ [name]) ≠ some .directory ∧
      w' = { w with files := grown.insert (dir ++ [name]) (.file text.toUTF8 executable) } := by
  unfold writeWithParents at h
  split at h
  · cases h
  rename_i grown hmade
  split at h
  · cases h
  rename_i files hfiles
  cases h
  obtain ⟨dir, name, executable, hencloses, hfile, rfl⟩ := FileTree.exists_of_writeFile hfiles
  exact ⟨grown, dir, name, executable, hmade, hencloses, hfile, rfl⟩

/-- One world comes from another by a new file at a place, with the directories above it. -/
structure Writes (place : Names) (content : ByteArray) (w w' : World) : Prop where
  same : ∃ files, w' = { w with files }
  wellFormed : w'.files.WellFormed
  wasMissing : w.files.get? place = none
  isWritten : ∃ executable, w'.files.get? place = some (.file content executable)
  keeps : FileTree.Keeps w.files w'.files
  adds : ∀ names, w.files.get? names = none → w'.files.get? names = none ∨ names <+: place

theorem writes_of_writeWithParents (h : w.files.WellFormed) (hplace : w.placeOf p = some place)
    (hlast : ∀ piece ∈ p.pieces.getLast?, (Path.component? piece).isSome)
    (hnone : w.pathExists p = false) (hwrite : writeWithParents w p text = (w', .ok ())) :
    Writes place text.toUTF8 w w' := by
  have habove : ∀ q ∈ p.ancestors.tail, q.text ≠ "" → w.files.LeadsOnWay w.cwd place q :=
    fun q hq htext => h.leadsOnWay_of_mem_ancestors hplace (List.mem_of_mem_tail hq) htext
  obtain ⟨grown, dir, name, executable, hmade, hencloses, hfile, rfl⟩ :=
    exists_of_writeWithParents hwrite
  have hgrown := FileTree.grownTo_makeDirectories h habove
  rw [hmade] at hgrown
  obtain rfl := hencloses.eq_of_place? (hgrown.keeps.placeFrom hplace)
  -- nothing was there, and making directories has put nothing there but a directory at most
  have hmissing : w.files.get? (dir ++ [name]) = none := by
    unfold World.pathExists at hnone
    rw [World.node?_of_placeOf h hplace hlast hencloses.taken] at hnone
    exact Option.isNone_iff_eq_none.mp (Option.isSome_eq_false_iff.mp hnone)
  have hmissing' : grown.get? (dir ++ [name]) = none := by
    rcases hgrown.adds _ hmissing with hnone' | ⟨hdir, -⟩
    · exact hnone'
    · exact absurd hdir hfile
  have hinsert := FileTree.keeps_insert hmissing' (.file text.toUTF8 executable)
  refine ⟨⟨_, rfl⟩, ?_, hmissing, ⟨executable, ?_⟩, ?_, ?_⟩
  · apply hgrown.wellFormed.insert hencloses.isDirectory hencloses.isName
    intro hdir
    rw [FileTree.isDirectory_iff, hmissing'] at hdir
    cases hdir
  · rw [FileTree.get?_insert (List.concat_ne_nil name dir), if_pos rfl]
  · exact fun names node hnode => hinsert names node (hgrown.keeps names node hnode)
  · intro names hnames
    rw [FileTree.get?_insert (List.concat_ne_nil name dir)]
    split
    · rename_i heq
      exact .inr (heq ▸ List.prefix_refl _)
    · exact (hgrown.adds names hnames).imp_right And.right

/-- A path that a file was written to has a place. -/
theorem isSome_placeOf_of_writeWithParents (hwrite : writeWithParents w p text = (w', .ok ())) :
    (w'.placeOf p).isSome := by
  obtain ⟨grown, dir, name, executable, -, hencloses, hfile, rfl⟩ :=
    exists_of_writeWithParents hwrite
  unfold World.placeOf
  rw [FileTree.place?, FileTree.placeFrom_of_directories
    (fun _ => FileTree.isDirectory_insert hfile) hencloses.place?_eq_some]
  rfl

/-- A path whose place is the new file or does not lie above it is loaded as before. -/
theorem loadFile_of_writes (h : w.files.WellFormed)
    (hwrites : Writes place default.toText.toUTF8 w w') {other : Names}
    (hother : w.placeOf q = some other)
    (hlast : ∀ piece ∈ q.pieces.getLast?, (Path.component? piece).isSome)
    (hapart : other <+: place → other = place) : loadFile w' q = loadFile w q := by
  by_cases htaken : FileTree.checkPath q = .ok ()
  · have hnode := World.node?_of_placeOf h hother hlast htaken
    have hother' : w'.placeOf q = some other := by
      obtain ⟨files, rfl⟩ := hwrites.same
      exact hwrites.keeps.placeFrom hother
    have hnode' := World.node?_of_placeOf hwrites.wellFormed hother' hlast htaken
    by_cases hsame : other = place
    · -- the default configuration is there now, and counted before because nothing was there
      rw [hsame, hwrites.wasMissing] at hnode
      obtain ⟨executable, hfile⟩ := hwrites.isWritten
      rw [hsame, hfile] at hnode'
      rw [loadFile_of_default hnode', loadFile_eq, hnode]
    · apply loadFile_congr
      rw [hnode, hnode']
      cases hentry : w.files.get? other with
      | some node => exact hwrites.keeps other node hentry
      | none => exact (hwrites.adds other hentry).resolve_right fun habove => hsame (hapart habove)
  · rw [loadFile_eq, loadFile_eq, World.node?_of_not_taken htaken, World.node?_of_not_taken htaken]

/-! ## 4. Neutral writes -/

/-- A configuration file has a name. -/
theorem isSome_of_getLast?_path (w : World) (root : Path) (isGlobal : Bool) :
    ∀ piece ∈ (path w root isGlobal).pieces.getLast?, (Path.component? piece).isSome := by
  have hdir : (if isGlobal then (userDirectory w).join ⟨"yaralens"⟩
      else root.join ⟨".yaralens"⟩).text ≠ "" := by
    split <;> exact Path.text_join_ne_empty (by decide) (by decide)
  obtain ⟨front, hpieces, -⟩ := Path.exists_pieces_join (q := ⟨"config.toml"⟩) (by decide) hdir
  intro piece hpiece
  unfold path at hpiece
  rw [hpieces] at hpiece
  have hlast : (⟨"config.toml"⟩ : Path).pieces = ["config.toml".toList] := by decide
  rw [hlast, List.getLast?_concat] at hpiece
  cases hpiece
  decide

theorem exists_writes_of_init {isGlobal force : Bool} {written : Path} (h : w.files.WellFormed)
    (hkept : (w'.placeOf (path w root isGlobal)).isSome →
      (w.placeOf (path w root isGlobal)).isSome)
    (hnone : w.pathExists (path w root isGlobal) = false)
    (hinit : init w root isGlobal force = (w', .ok written)) :
    ∃ place, w.placeOf (path w root isGlobal) = some place ∧
      Writes place default.toText.toUTF8 w w' := by
  unfold init at hinit
  dsimp only at hinit
  rw [hnone, Bool.false_and, if_neg Bool.false_ne_true] at hinit
  split at hinit
  · cases hinit
  rename_i hwrite
  cases hinit
  obtain ⟨place, hplace⟩ :=
    Option.isSome_iff_exists.mp (hkept (isSome_placeOf_of_writeWithParents hwrite))
  exact ⟨place, hplace,
    writes_of_writeWithParents h hplace (isSome_of_getLast?_path w root isGlobal) hnone hwrite⟩

/-- Writing the default configuration where there is none is neutral: all configurations are loaded
as before, the errors among them included.  The files of the user and of the project may not lie
below one another, and no `..` of their paths may leave a directory that only the writing makes. -/
theorem load_of_init {isGlobal force : Bool} {written : Path} (h : w.files.WellFormed)
    (hapart : ∀ project user, w.placeOf (path w root false) = some project →
      w.placeOf (path w root true) = some user →
      project <+: user ∨ user <+: project → project = user)
    (hkept : ∀ file, (w'.placeOf (path w root file)).isSome → (w.placeOf (path w root file)).isSome)
    (hnone : w.pathExists (path w root isGlobal) = false)
    (hinit : init w root isGlobal force = (w', .ok written)) (asked : Bool) :
    load w' root asked = load w root asked := by
  obtain ⟨place, hplace, hwrites⟩ := exists_writes_of_init h (hkept isGlobal) hnone hinit
  apply load_congr hwrites.same
  intro file
  cases hother : w.placeOf (path w root file) with
  | none =>
    have hother' : w'.placeOf (path w root file) = none := by
      have hbefore := mt (hkept file)
      rw [hother] at hbefore
      exact Option.not_isSome_iff_eq_none.mp (hbefore Bool.false_ne_true)
    apply loadFile_congr
    rw [World.node?_of_placeOf_eq_none hother, World.node?_of_placeOf_eq_none hother']
  | some other =>
    apply loadFile_of_writes h hwrites hother (isSome_of_getLast?_path w root file)
    intro habove
    cases file <;> cases isGlobal
    · exact Option.some.inj (hother.symm.trans hplace)
    · exact hapart other place hother hplace (.inl habove)
    · exact (hapart place other hplace hother (.inr habove)).symm
    · exact Option.some.inj (hother.symm.trans hplace)

/-- A world in which the user has a configuration file and the project has none. -/
def withUserFile : World where
  files := ((((FileTree.empty.insert ["w"] .directory).insert ["u"] .directory).insert
    ["u", "yaralens"] .directory).insert ["u", "yaralens", "config.toml"]
    (.file "[compiler]\ntimeout_secs = 99\n".toUTF8 false))
  cwd := ["w"]
  env := [("XDG_CONFIG_HOME", "/u")]
  home := ⟨"/"⟩
  programs := []

theorem load_of_init_withUserFile :
    ∃ w', init withUserFile ⟨"/w"⟩ false false = (w', .ok ⟨"/w/.yaralens/config.toml"⟩) ∧
      load w' ⟨"/w"⟩ false = .ok { default with compiler := { timeoutSecs := 99 } } ∧
      load withUserFile ⟨"/w"⟩ false = .ok { default with compiler := { timeoutSecs := 99 } } := by
  have hwritten : (init withUserFile ⟨"/w"⟩ false false).2 = .ok ⟨"/w/.yaralens/config.toml"⟩ := by
    decide +kernel
  have hinit : init withUserFile ⟨"/w"⟩ false false =
      ((init withUserFile ⟨"/w"⟩ false false).1, .ok ⟨"/w/.yaralens/config.toml"⟩) :=
    Prod.ext rfl hwritten
  have hproject : withUserFile.placeOf (path withUserFile ⟨"/w"⟩ false) =
      some ["w", ".yaralens", "config.toml"] := by decide +kernel
  have huser : withUserFile.placeOf (path withUserFile ⟨"/w"⟩ true) =
      some ["u", "yaralens", "config.toml"] := by decide +kernel
  have hload : load withUserFile ⟨"/w"⟩ false =
      .ok { default with compiler := { timeoutSecs := 99 } } := by decide +kernel
  refine ⟨_, hinit, ?_, hload⟩
  rw [← hload]
  apply load_of_init (by decide +kernel) ?_ ?_ (by decide +kernel) hinit
  · intro project user hp hu
    rw [hproject] at hp
    rw [huser] at hu
    cases hp
    cases hu
    decide
  · intro file _
    cases file
    · rw [hproject]
      rfl
    · rw [huser]
      rfl

/-- A world in which the way to the configuration of the user leaves a missing directory, which is
the one of the project. -/
def withDetour : World where
  files := ((((FileTree.empty.insert ["w"] .directory).insert ["w", "xdg"] .directory).insert
    ["w", "xdg", "yaralens"] .directory).insert ["w", "xdg", "yaralens", "config.toml"]
    (.file "[compiler]\ntimeout_secs = 99\n".toUTF8 false))
  cwd := ["w"]
  env := [("XDG_CONFIG_HOME", "/w/.yaralens/../xdg")]
  home := ⟨"/"⟩
  programs := []

/-- Writing the project's configuration brings the user's one to life. -/
theorem load_of_init_withDetour :
    withDetour.files.WellFormed ∧
      ¬ (path withDetour ⟨"/w"⟩ false).components <+: (path withDetour ⟨"/w"⟩ true).components ∧
      ¬ (path withDetour ⟨"/w"⟩ true).components <+: (path withDetour ⟨"/w"⟩ false).components ∧
      withDetour.pathExists (path withDetour ⟨"/w"⟩ false) = false ∧
      ∃ w', init withDetour ⟨"/w"⟩ false false = (w', .ok ⟨"/w/.yaralens/config.toml"⟩) ∧
        load withDetour ⟨"/w"⟩ false = .ok default ∧
        load w' ⟨"/w"⟩ false = .ok { default with compiler := { timeoutSecs := 99 } } := by
  have hwritten : (init withDetour ⟨"/w"⟩ false false).2 = .ok ⟨"/w/.yaralens/config.toml"⟩ := by
    decide +kernel
  have hinit : init withDetour ⟨"/w"⟩ false false =
      ((init withDetour ⟨"/w"⟩ false false).1, .ok ⟨"/w/.yaralens/config.toml"⟩) :=
    Prod.ext rfl hwritten
  have hwell : withDetour.files.WellFormed := by decide +kernel
  have hnone : withDetour.pathExists (path withDetour ⟨"/w"⟩ false) = false := by decide +kernel
  have hplaced : (withDetour.placeOf (path withDetour ⟨"/w"⟩ false)).isSome := by decide +kernel
  obtain ⟨place, hplace, hwrites⟩ := exists_writes_of_init hwell (fun _ => hplaced) hnone hinit
  have hproject := loadFile_of_writes hwell hwrites hplace (isSome_of_getLast?_path _ _ _)
    fun _ => rfl
  -- the directory that was missing is there now, so the user's file has a place
  have huser : (init withDetour ⟨"/w"⟩ false false).1.placeOf (path withDetour ⟨"/w"⟩ true) =
      some ["w", "xdg", "yaralens", "config.toml"] := by decide +kernel
  have hentry : withDetour.files.get? ["w", "xdg", "yaralens", "config.toml"] =
      some (.file "[compiler]\ntimeout_secs = 99\n".toUTF8 false) :=
    (FileTree.get?_insert (List.cons_ne_nil _ _) _).trans (if_pos rfl)
  have hnode := World.node?_of_placeOf hwrites.wellFormed huser (isSome_of_getLast?_path _ _ _)
    (by decide +kernel)
  rw [hwrites.keeps _ _ hentry] at hnode
  refine ⟨hwell, by decide +kernel, by decide +kernel, hnone, _, hinit, by decide +kernel, ?_⟩
  obtain ⟨files, hsame⟩ := hwrites.same
  generalize (init withDetour ⟨"/w"⟩ false false).1 = w' at *
  subst hsame
  show (loadFile _ (path withDetour ⟨"/w"⟩ true) >>= fun user =>
    loadFile _ (path withDetour ⟨"/w"⟩ false) >>= fun project =>
      withEnvironment withDetour.env (overlay user project)) = _
  rw [hproject, loadFile_eq, hnode]
  decide +kernel

end Config

end RuleLens
