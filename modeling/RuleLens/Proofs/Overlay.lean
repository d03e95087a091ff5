import RuleLens.Config.Overlay
import RuleLens.Proofs.Failing
import RuleLens.Proofs.Text

/-!
# Laws of the layers

Laying configurations over one another is associative, the default configuration adds nothing to
either side, and of two settings for one thing the upper one counts.  The variables of the
environment change the compiler's settings that they name and nothing else, and once they are
carried out they have nothing left to change.
-/

namespace RuleLens.Config

variable {env : Environment} {c c' : Config} {settings settings' : CompilerConfig}

/-! ## 1. Settings over settings -/

section Pick

variable {α : Type} [DecidableEq α]

theorem pick_of_ne {d b : α} (h : b ≠ d) (a : α) : pick d a b = b :=
  if_neg h

theorem pick_default_right (d a : α) : pick d a d = a :=
  if_pos rfl

theorem pick_default_left (d a : α) : pick d d a = a := by
  by_cases ha : a = d
  · rw [ha, pick_default_right]
  · exact pick_of_ne ha d

theorem pick_assoc (d a b c : α) : pick d (pick d a b) c = pick d a (pick d b c) := by
  by_cases hc : c = d
  · -- on top of all, the default gives way on both sides
    rw [hc, pick_default_right, pick_default_right]
  · rw [pick_of_ne hc, pick_of_ne hc, pick_of_ne hc]

/-- A value that lies both below and above another counts above. -/
theorem pick_pick_left (d a b : α) : pick d (pick d a b) a = pick d b a := by
  by_cases ha : a = d
  · rw [ha, pick_default_right, pick_default_right, pick_default_left]
  · rw [pick_of_ne ha, pick_of_ne ha]

end Pick

theorem orElse_orElse_left {α : Type} (a b : Option α) : (a <|> b <|> a) = (a <|> b) := by
  cases a with
  | none => cases b <;> rfl
  | some value => rfl

theorem or_or_left (a b : Bool) : (a || b || a) = (b || a) := by
  cases a
  · rw [Bool.false_or]
  · rw [Bool.or_true, Bool.or_true]

/-! ## 2. Files over files -/

theorem overlay_assoc (a b c : Config) :
    overlay (overlay a b) c = overlay a (overlay b c) := by
  simp only [overlay, pick_assoc, Bool.or_assoc, Option.orElse_eq_orElse, Option.orElse_eq_or,
    Option.or_assoc]

theorem default_overlay (a : Config) : overlay default a = a := by
  simp only [overlay, default, pick_default_left, Bool.false_or, Option.orElse_eq_orElse,
    Option.orElse_eq_or, Option.or_none]

theorem overlay_default (a : Config) : overlay a default = a := by
  simp only [overlay, default, pick_default_right, Bool.or_false, Option.orElse_eq_orElse,
    Option.orElse_eq_or, Option.none_or]

theorem overlay_overlay_left (a b : Config) : overlay (overlay a b) a = overlay b a := by
  simp only [overlay, pick_pick_left, orElse_orElse_left, or_or_left]

/-- Configurations with the default one are a monoid, in which every configuration is idempotent and
of two layers the upper one counts. -/
theorem overlay_idempotentMonoid :
    (∀ a b c, overlay (overlay a b) c = overlay a (overlay b c)) ∧
      (∀ a, overlay default a = a ∧ overlay a default = a) ∧
      (∀ a, overlay a a = a) ∧
      ∀ a b, overlay (overlay a b) a = overlay b a := by
  refine ⟨overlay_assoc, fun a => ⟨default_overlay a, overlay_default a⟩, fun a => ?_,
    overlay_overlay_left⟩
  -- between two equal layers the default one may lie, which adds nothing
  calc overlay a a
    _ = overlay (overlay a default) a := by rw [overlay_default]
    _ = overlay default a := overlay_overlay_left a default
    _ = a := default_overlay a

/-! ## 3. Single variables -/

/-- The text is a number of seconds: ASCII digits, maybe behind a plus sign, for a number of 64
bits. -/
def SpellsSeconds (text : List Char) (seconds : Nat) : Prop :=
  ∃ digits, (text = digits ∨ text = '+' :: digits) ∧ digits ≠ [] ∧ Text.Denotes digits seconds ∧
    seconds < UInt64.size

theorem spellsSeconds_iff {text : List Char} {seconds : Nat} :
    SpellsSeconds text seconds ↔ Text.readUpTo? Text.max64 text = some seconds := by
  have hbound : seconds < UInt64.size ↔ seconds ≤ Text.max64 := Nat.lt_succ_iff
  unfold SpellsSeconds
  rw [Text.readUpTo?_eq_some_iff, hbound]

theorem SpellsSeconds.unique {text : List Char} {m n : Nat} (hm : SpellsSeconds text m)
    (hn : SpellsSeconds text n) : m = n := by
  rw [spellsSeconds_iff] at hm hn
  exact Option.some.inj (hm.symm.trans hn)

theorem withInstallPath_cases (env : Environment) (settings : CompilerConfig) :
    ((∀ dir, env.lookup "YARALENS_INSTALL_PATH" = some dir → dir = "") ∧
      withInstallPath env settings = settings) ∨
    ∃ dir, env.lookup "YARALENS_INSTALL_PATH" = some dir ∧ dir ≠ "" ∧
      withInstallPath env settings = { settings with installPath := some dir } := by
  unfold withInstallPath
  cases hdir : env.lookup "YARALENS_INSTALL_PATH" with
  | none => exact .inl ⟨nofun, rfl⟩
  | some dir =>
    by_cases hempty : dir = ""
    · subst hempty
      exact .inl ⟨fun dir h => (Option.some.inj h).symm, rfl⟩
    · exact .inr ⟨dir, rfl, hempty, if_neg (by simpa using hempty)⟩

theorem withCompileFlags_cases (env : Environment) (settings : CompilerConfig) :
    (env.lookup "YARALENS_COMPILE_FLAGS" = none ∧ withCompileFlags env settings = settings) ∨
    ∃ value, env.lookup "YARALENS_COMPILE_FLAGS" = some value ∧
      withCompileFlags env settings = { settings with
        compileFlags := some (.many ((Text.words value.toList).map String.ofList)) } := by
  unfold withCompileFlags
  cases env.lookup "YARALENS_COMPILE_FLAGS" with
  | none => exact .inl ⟨rfl, rfl⟩
  | some value => exact .inr ⟨value, rfl, rfl⟩

theorem withTimeout_cases (env : Environment) (settings : CompilerConfig) :
    (env.lookup "YARALENS_COMPILE_TIMEOUT" = none ∧ withTimeout env settings = .ok settings) ∨
    (∃ value seconds, env.lookup "YARALENS_COMPILE_TIMEOUT" = some value ∧
      SpellsSeconds value.toList seconds ∧
      withTimeout env settings = .ok { settings with timeoutSecs := seconds }) ∨
    ∃ value, env.lookup "YARALENS_COMPILE_TIMEOUT" = some value ∧
      (∀ seconds, ¬ SpellsSeconds value.toList seconds) ∧
      withTimeout env settings = .error (.badTimeout value) := by
  unfold withTimeout
  simp only [spellsSeconds_iff]
  cases env.lookup "YARALENS_COMPILE_TIMEOUT" with
  | none => exact .inl ⟨rfl, rfl⟩
  | some value =>
    cases hread : Text.readUpTo? Text.max64 value.toList with
    | none =>
      refine .inr (.inr ⟨value, rfl, fun seconds h => ?_, by simp only [hread]⟩)
      rw [hread] at h
      cases h
    | some seconds => exact .inr (.inl ⟨value, seconds, rfl, hread, by simp only [hread]⟩)

theorem withInstallPath_frame (env : Environment) (settings : CompilerConfig) :
    (withInstallPath env settings).compileFlags = settings.compileFlags ∧
      (withInstallPath env settings).timeoutSecs = settings.timeoutSecs := by
  rcases withInstallPath_cases env settings with ⟨-, h⟩ | ⟨dir, -, -, h⟩ <;> rw [h] <;>
    exact ⟨rfl, rfl⟩

theorem withCompileFlags_frame (env : Environment) (settings : CompilerConfig) :
    (withCompileFlags env settings).installPath = settings.installPath ∧
      (withCompileFlags env settings).timeoutSecs = settings.timeoutSecs := by
  rcases withCompileFlags_cases env settings with ⟨-, h⟩ | ⟨value, -, h⟩ <;> rw [h] <;>
    exact ⟨rfl, rfl⟩

theorem withTimeout_frame (h : withTimeout env settings = .ok settings') :
    settings'.installPath = settings.installPath ∧
      settings'.compileFlags = settings.compileFlags ∧
      (env.lookup "YARALENS_COMPILE_TIMEOUT" = none ∧
          settings'.timeoutSecs = settings.timeoutSecs ∨
        ∃ value, env.lookup "YARALENS_COMPILE_TIMEOUT" = some value ∧
          SpellsSeconds value.toList settings'.timeoutSecs) := by
  rcases withTimeout_cases env settings with ⟨hunset, hok⟩ | ⟨value, seconds, hset, hvalue, hok⟩ |
      ⟨value, -, -, herror⟩
  · rw [hok] at h
    cases h
    exact ⟨rfl, rfl, .inl ⟨hunset, rfl⟩⟩
  · rw [hok] at h
    cases h
    exact ⟨rfl, rfl, .inr ⟨value, hset, hvalue⟩⟩
  · rw [herror] at h
    cases h

/-! ## 4. All variables -/

/-- Each setting is as before where its variable is not set, and as the variable says where it is.
A variable for the compiler's directory that is empty counts as not set. -/
structure Applies (env : Environment) (settings settings' : CompilerConfig) : Prop where
  installPath : (∀ dir, env.lookup "YARALENS_INSTALL_PATH" = some dir → dir = "") ∧
      settings'.installPath = settings.installPath ∨
    ∃ dir, env.lookup "YARALENS_INSTALL_PATH" = some dir ∧ dir ≠ "" ∧
      settings'.installPath = some dir
  compileFlags : env.lookup "YARALENS_COMPILE_FLAGS" = none ∧
      settings'.compileFlags = settings.compileFlags ∨
    ∃ value, env.lookup "YARALENS_COMPILE_FLAGS" = some value ∧
      settings'.compileFlags = some (.many ((Text.words value.toList).map String.ofList))
  timeoutSecs : env.lookup "YARALENS_COMPILE_TIMEOUT" = none ∧
      settings'.timeoutSecs = settings.timeoutSecs ∨
    ∃ value, env.lookup "YARALENS_COMPILE_TIMEOUT" = some value ∧
      SpellsSeconds value.toList settings'.timeoutSecs

theorem applies_of_withTimeout (h : withTimeout env (withCompileFlags env
    (withInstallPath env settings)) = .ok settings') : Applies env settings settings' := by
  obtain ⟨hflags, htimeout⟩ := withInstallPath_frame env settings
  obtain ⟨hpath, htimeout'⟩ := withCompileFlags_frame env (withInstallPath env settings)
  obtain ⟨hpath', hflags', hseconds⟩ := withTimeout_frame h
  -- each variable changes its own setting alone, so the three are looked at one by one
  refine ⟨?_, ?_, ?_⟩
  · rw [hpath', hpath]
    rcases withInstallPath_cases env settings with ⟨hunset, hsame⟩ | ⟨dir, hset, hne, hdir⟩
    · exact .inl ⟨hunset, by rw [hsame]⟩
    · exact .inr ⟨dir, hset, hne, by rw [hdir]⟩
  · rw [hflags']
    rcases withCompileFlags_cases env (withInstallPath env settings) with
      ⟨hunset, hsame⟩ | ⟨value, hset, hvalue⟩
    · exact .inl ⟨hunset, by rw [hsame, hflags]⟩
    · exact .inr ⟨value, hset, by rw [hvalue]⟩
  · rw [htimeout', htimeout] at hseconds
    exact hseconds

/-- What has been applied says the same of its own outcome. -/
theorem Applies.again (h : Applies env settings settings') : Applies env settings' settings' where
  installPath := h.installPath.imp_left fun hkept => ⟨hkept.1, rfl⟩
  compileFlags := h.compileFlags.imp_left fun hkept => ⟨hkept.1, rfl⟩
  timeoutSecs := h.timeoutSecs.imp_left fun hkept => ⟨hkept.1, rfl⟩

theorem Applies.compileFlags_of_set (h : Applies env settings settings') {value : String}
    (hset : env.lookup "YARALENS_COMPILE_FLAGS" = some value) :
    settings'.compileFlags = some (.many ((Text.words value.toList).map String.ofList)) := by
  rcases h.compileFlags with ⟨hunset, -⟩ | ⟨value', hset', hflags⟩
  · rw [hunset] at hset
    cases hset
  · rw [hset] at hset'
    cases hset'
    exact hflags

theorem Applies.withInstallPath_eq (h : Applies env settings settings) :
    withInstallPath env settings = settings := by
  rcases withInstallPath_cases env settings with ⟨-, hsame⟩ | ⟨dir, hset, hne, hdir⟩
  · exact hsame
  · rcases h.installPath with ⟨hunset, -⟩ | ⟨dir', hset', -, hpath⟩
    · exact absurd (hunset dir hset) hne
    · rw [hset] at hset'
      cases hset'
      rw [hdir, ← hpath]

theorem Applies.withCompileFlags_eq (h : Applies env settings settings) :
    withCompileFlags env settings = settings := by
  rcases withCompileFlags_cases env settings with ⟨-, hsame⟩ | ⟨value, hset, hflags⟩
  · exact hsame
  · rw [hflags, ← h.compileFlags_of_set hset]

theorem Applies.withTimeout_eq (h : Applies env settings settings) :
    withTimeout env settings = .ok settings := by
  unfold withTimeout
  rcases h.timeoutSecs with ⟨hunset, -⟩ | ⟨value, hset, hvalue⟩
  · rw [hunset]
  · simp only [hset, spellsSeconds_iff.mp hvalue]

/-! ## 5. Configurations -/

theorem withEnvironment_eq (env : Environment) (c : Config) :
    withEnvironment env c =
      (withTimeout env (withCompileFlags env (withInstallPath env c.compiler))).map
        fun settings => { c with compiler := settings } := by
  unfold withEnvironment
  cases withTimeout env (withCompileFlags env (withInstallPath env c.compiler)) <;> rfl

theorem withEnvironment_eq_ok (h : withEnvironment env c = .ok c') :
    Applies env c.compiler c'.compiler ∧ c' = { c with compiler := c'.compiler } := by
  rw [withEnvironment_eq] at h
  cases hsettings : withTimeout env (withCompileFlags env (withInstallPath env c.compiler)) with
  | error cause =>
    rw [hsettings] at h
    cases h
  | ok settings =>
    rw [hsettings] at h
    cases h
    exact ⟨applies_of_withTimeout hsettings, rfl⟩

/-- Only a time limit can be wrong. -/
theorem withEnvironment_eq_error_iff {cause : ConfigError} :
    withEnvironment env c = .error cause ↔
      ∃ value, env.lookup "YARALENS_COMPILE_TIMEOUT" = some value ∧
        (∀ seconds, ¬ SpellsSeconds value.toList seconds) ∧ cause = .badTimeout value := by
  rw [withEnvironment_eq]
  rcases withTimeout_cases env (withCompileFlags env (withInstallPath env c.compiler)) with
    ⟨hunset, hok⟩ | ⟨value, seconds, hset, hvalue, hok⟩ | ⟨value, hset, hvalue, herror⟩
  · rw [hok, hunset]
    apply iff_of_false nofun
    rintro ⟨value, hset, -⟩
    cases hset
  · -- a value spells a number or it does not
    rw [hok, hset]
    apply iff_of_false nofun
    rintro ⟨value', hset', hvalue', -⟩
    cases hset'
    exact hvalue' seconds hvalue
  · rw [herror, hset]
    apply Iff.intro
    · intro h
      cases h
      exact ⟨value, rfl, hvalue, rfl⟩
    · rintro ⟨value', hset', -, rfl⟩
      cases hset'
      rfl

/-- Applying the variables twice is applying them once. -/
theorem withEnvironment_again (h : withEnvironment env c = .ok c') :
    withEnvironment env c' = .ok c' := by
  -- the settings are what the variables ask for by now, so none of the three steps changes them
  have hagain := (withEnvironment_eq_ok h).1.again
  rw [withEnvironment_eq, hagain.withInstallPath_eq, hagain.withCompileFlags_eq,
    hagain.withTimeout_eq]
  rfl

theorem ofList_words_eq_iff {value : String} {flags : List String} :
    (Text.words value.toList).map String.ofList = flags ↔
      Text.Spaced (flags.map String.toList) value.toList := by
  rw [← Text.words_eq_iff]
  apply Iff.intro
  · rintro rfl
    rw [List.map_map]
    exact (List.map_id'' (fun word => String.toList_ofList) _).symm
  · intro h
    rw [h, List.map_map]
    exact List.map_id'' (fun flag => String.ofList_toList) _

/-- The compiler gets the words of the variable as its options: none of them is left out as
empty. -/
theorem Applies.flagArgs_eq (h : Applies env settings settings') {value : String}
    (hset : env.lookup "YARALENS_COMPILE_FLAGS" = some value) :
    settings'.flagArgs = (Text.words value.toList).map String.ofList := by
  unfold CompilerConfig.flagArgs
  rw [h.compileFlags_of_set hset]
  show ((Text.words value.toList).map String.ofList).filter (!·.isEmpty) = _
  rw [List.filter_eq_self]
  intro flag hflag
  obtain ⟨word, hword, rfl⟩ := List.mem_map.mp hflag
  have hne := ((Text.spaced_words _).isWord_of_mem word hword).1
  simpa using hne

/-- The environment touches what it names and nothing else.  It is refused if the time limit is no
number of seconds; otherwise each variable that is set says what its setting is, all else stays as
it was, and applying the variables again changes nothing.  The options of the compiler are the words
of their variable, however blanks divide them and whatever the files say. -/
theorem withEnvironment_frame (env : Environment) (c : Config) :
    (∀ cause, withEnvironment env c = .error cause ↔
      ∃ value, env.lookup "YARALENS_COMPILE_TIMEOUT" = some value ∧
        (∀ seconds, ¬ SpellsSeconds value.toList seconds) ∧ cause = .badTimeout value) ∧
    ∀ c', withEnvironment env c = .ok c' →
      c'.completion = c.completion ∧ c'.workspace = c.workspace ∧
      Applies env c.compiler c'.compiler ∧
      withEnvironment env c' = .ok c' ∧
      ∀ value, env.lookup "YARALENS_COMPILE_FLAGS" = some value → ∀ flags : List String,
        c'.compiler.flagArgs = flags ↔
          Text.Spaced (flags.map String.toList) value.toList := by
  refine ⟨fun cause => withEnvironment_eq_error_iff, fun c' h => ?_⟩
  obtain ⟨happlies, hc'⟩ := withEnvironment_eq_ok h
  refine ⟨by rw [hc'], by rw [hc'], happlies, withEnvironment_again h, fun value hset flags => ?_⟩
  rw [happlies.flagArgs_eq hset]
  exact ofList_words_eq_iff

/-- A signed number with zeros in front, options between blanks of three kinds, and a directory that
is empty. -/
def blankEnvironment : Environment :=
  [("YARALENS_COMPILE_FLAGS", " -w\u2003\t--strict\n"), ("YARALENS_INSTALL_PATH", ""),
    ("YARALENS_COMPILE_TIMEOUT", "+007")]

/-- A number that is too large by one is refused. -/
theorem withEnvironment_frame_blanks :
    (∃ c',
      withEnvironment blankEnvironment { compiler := { installPath := some "/opt" } } = .ok c' ∧
      c'.compiler.timeoutSecs = 7 ∧ c'.compiler.flagArgs = ["-w", "--strict"] ∧
      c'.compiler.installPath = some "/opt") ∧
    withEnvironment [("YARALENS_COMPILE_TIMEOUT", "18446744073709551616")] default =
      .error (.badTimeout "18446744073709551616") := by
  have h : ∃ c', withEnvironment blankEnvironment { compiler := { installPath := some "/opt" } } =
    .ok c' := ⟨_, rfl⟩
  obtain ⟨c', hc'⟩ := h
  obtain ⟨-, hok⟩ := withEnvironment_frame blankEnvironment
    { compiler := { installPath := some "/opt" } }
  obtain ⟨-, -, happlies, -, hflags⟩ := hok c' hc'
  refine ⟨⟨c', hc', ?_, ?_, ?_⟩, ?_⟩
  · rcases happlies.timeoutSecs with ⟨hunset, -⟩ | ⟨value, hset, hvalue⟩
    · exact absurd hunset (by decide)
    · cases hset
      exact hvalue.unique (spellsSeconds_iff.mpr (by decide))
  · exact (hflags _ rfl _).mpr (Text.words_eq_iff.mp (by decide))
  · rcases happlies.installPath with ⟨-, hkept⟩ | ⟨dir, hset, hne, -⟩
    · exact hkept
    · cases hset
      exact absurd rfl hne
  · refine ((withEnvironment_frame _ _).1 _).mpr ⟨_, rfl, fun seconds hseconds => ?_, rfl⟩
    rw [spellsSeconds_iff] at hseconds
    have hnone : Text.readUpTo? Text.max64 "18446744073709551616".toList = none := by decide
    rw [hnone] at hseconds
    cases hseconds

end RuleLens.Config
