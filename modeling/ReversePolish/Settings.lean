import ReversePolish.Disk.Path

/-! # Settings of the compiler

A setting keeps its value until an update gives it another.
-/

namespace ReversePolish

/-- Whether the compiler tells what it does, and where its output goes. -/
structure Settings where
  verbose : Bool := false
  output : Path := .ofString "out.bin"
  deriving Repr, DecidableEq

namespace Settings

/-- Replaces the settings that are given. -/
def update (settings : Settings) (verbose : Option Bool) (output : Option Path) : Settings where
  verbose := verbose.getD settings.verbose
  output := output.getD settings.output

@[simp] theorem update_none (settings : Settings) : settings.update none none = settings := rfl

theorem update_update (settings : Settings) (verbose laterVerbose : Option Bool)
    (output laterOutput : Option Path) :
    (settings.update verbose output).update laterVerbose laterOutput =
      settings.update (laterVerbose.or verbose) (laterOutput.or output) := by
  cases laterVerbose <;> cases laterOutput <;> rfl

end Settings

end ReversePolish
