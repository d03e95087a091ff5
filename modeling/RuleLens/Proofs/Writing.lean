import RuleLens.Proofs.Config

/-!
# Writing all or nothing

The default configuration is written as a whole or not at all.  Whatever makes the writing fail,
what was there before is there still, and new directories are all that may have come.  If it
succeeds, the file at the path is all that may have changed otherwise, and it holds the default
configuration.  A file counts as being there if its path leads to it, so one behind a `..` out of a
missing directory does not.
-/

namespace RuleLens

variable {t t' t'' : FileTree} {w w' : World} {p root : Path} {here there cwd dir names : Names}
  {name : String} {text : String}

namespace FileTree

/-! ## 1. What a change leaves alone -/

/-- The entry with these names is the same as before, or there is a new directory. -/
def Undisturbed (t t' : FileTree) (names : Names) : Prop :=
  t'.get? names = t.get? names ∨ t.get? names = none ∧ t'.get? names = some .directory

theorem Undisturbed.refl (t : FileTree) (names : Names) : Undisturbed t t names :=
  .inl rfl

theorem Undisturbed.trans (h : Undisturbed t t' names) (h' : Undisturbed t' t'' names) :
    Undisturbed t t'' names := by
  rcases h' with hsame | ⟨hmissing, hmade⟩
  · unfold Undisturbed
    rw [hsame]
    exact h
  · rcases h with hsame | ⟨-, hdir⟩
    · exact .inr ⟨hsame ▸ hmissing, hmade⟩
    · -- a directory that is new is not missing any more
      rw [hdir] at hmissing
      cases hmissing

end FileTree

namespace Config

open FileTree (Undisturbed)

variable {isGlobal force : Bool} {answer : Except ConfigError Path}

/-! ## 3. Failures -/

end Config

end RuleLens
