/-!
# Computations that may fail

The first error of a sequence is its result, and a sequence without errors has all its results.
-/

namespace RuleLens

variable {ε α β : Type}

instance decidableEqExcept [DecidableEq ε] [DecidableEq α] : DecidableEq (Except ε α)
  | .ok a, .ok b => decidable_of_iff (a = b) ⟨congrArg Except.ok, Except.ok.inj⟩
  | .error e, .error e' => decidable_of_iff (e = e') ⟨congrArg Except.error, Except.error.inj⟩
  | .ok _, .error _ => isFalse nofun
  | .error _, .ok _ => isFalse nofun

theorem bind_eq_ok_iff {m : Except ε α} {f : α → Except ε β} {b : β} :
    m >>= f = .ok b ↔ ∃ a, m = .ok a ∧ f a = .ok b := by
  cases m with
  | error e =>
    apply iff_of_false nofun
    rintro ⟨a, ha, -⟩
    cases ha
  | ok a =>
    apply Iff.intro
    · intro h
      exact ⟨a, rfl, h⟩
    · rintro ⟨a', ha, h⟩
      cases ha
      exact h

theorem mapM_eq_ok_iff {f : α → Except ε β} {as : List α} {bs : List β} :
    as.mapM f = .ok bs ↔ as.map f = bs.map .ok := by
  induction as generalizing bs with
  | nil =>
    rw [List.mapM_nil]
    cases bs with
    | nil => exact iff_of_true rfl rfl
    | cons b bs => exact iff_of_false nofun nofun
  | cons a as ih =>
    rw [List.mapM_cons, bind_eq_ok_iff]
    cases bs with
    | nil =>
      apply Iff.intro
      · rintro ⟨b, -, h⟩
        obtain ⟨bs, -, h⟩ := bind_eq_ok_iff.mp h
        cases h
      · intro h
        cases h
    | cons b bs =>
      rw [List.map_cons, List.map_cons, List.cons.injEq, ← ih]
      apply Iff.intro
      · rintro ⟨b', hb, h⟩
        obtain ⟨bs', hbs, h⟩ := bind_eq_ok_iff.mp h
        cases h
        exact ⟨hb, hbs⟩
      · rintro ⟨hb, hbs⟩
        exact ⟨b, hb, bind_eq_ok_iff.mpr ⟨bs, hbs, rfl⟩⟩

theorem mapM_of_forall_ok {f : α → Except ε β} {g : α → β} {as : List α}
    (h : ∀ a ∈ as, f a = .ok (g a)) : as.mapM f = .ok (as.map g) := by
  rw [mapM_eq_ok_iff, List.map_map]
  exact List.map_congr_left h

theorem optionMapM_eq_ok_iff {f : α → Except ε β} {a? : Option α} {b? : Option β} :
    a?.mapM f = .ok b? ↔ a?.map f = b?.map .ok := by
  cases a? with
  | none =>
    cases b? with
    | none => exact iff_of_true rfl rfl
    | some b => exact iff_of_false nofun nofun
  | some a =>
    rw [Option.mapM_some, Option.map_some]
    cases hb : f a with
    | error e => cases b? <;> exact iff_of_false nofun nofun
    | ok b =>
      cases b? with
      | none => exact iff_of_false nofun nofun
      | some b' => simp [Functor.map, Except.map]

/-- What comes behind the first error is not looked at. -/
theorem mapM_append_cons_of_error {f : α → Except ε β} {before behind : List α} {a : α} {e : ε}
    (hbefore : ∀ x ∈ before, ∃ b, f x = .ok b) (ha : f a = .error e) :
    (before ++ a :: behind).mapM f = .error e := by
  induction before with
  | nil =>
    rw [List.nil_append, List.mapM_cons, ha]
    rfl
  | cons x before ih =>
    obtain ⟨b, hb⟩ := hbefore x List.mem_cons_self
    rw [List.cons_append, List.mapM_cons, hb, ih fun y hy => hbefore y (List.mem_cons_of_mem x hy)]
    rfl

end RuleLens
