/-
# Dry runs

A dry run reads the real system and only plans its changes: each write is said, kept
on the trail, and taken to have gone well.
-/

import TweakEngine.System.Host

namespace TweakEngine

/-- The speaker of dry runs. -/
def dryRunSpeaker : String := "tweakd.system.dry_run"

/-- Plans a write. -/
def Write.planned {μ : Type} (w : Write) : Call μ w.Reply := do
  let text ← Act.result w.plan
  Host.record (.planned text)
  Host.say .info dryRunSpeaker ("[DRY RUN] Would " ++ text)
  return w.wellDone

/-- The mutator that plans what another one would do. -/
def Mutator.dryRun {μ : Type} (m : Mutator μ) : Mutator μ := { m with write := Write.planned }

end TweakEngine
