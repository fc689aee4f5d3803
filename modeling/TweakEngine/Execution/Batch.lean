/-
# Batches

A batch applies or reverts tweaks one after the other until it is cancelled.  It may be
part of a larger program: the sink of its progress reports and the test for
cancellation see the state of the whole program.
-/

import TweakEngine.Execution.Apply

namespace TweakEngine
namespace Engine

variable {μ S : Type}

/-- Reports progress; what the sink refuses is only said. -/
def report (part : Part S (Session μ)) (sink : Option (Progress → Act S Unit)) (p : Progress) :
    Act S Unit := do
  match sink with
  | none => return
  | some sink =>
    match ← (sink p).attempt with
    | .ok () => return
    | .error f =>
      part.lift (Session.say .warning speaker ("Progress callback raised: " ++ f.message))

/-- Applies or reverts one tweak. -/
def runOne (e : Engine μ) (part : Part S (Session μ)) (action : Action) (cancelled : S → Bool)
    (t : Tweak) : Act S Result := do
  let s ← Act.view id
  let test := part.seen cancelled s
  part.lift (match action with
    | .apply => e.apply test t
    | .revert => e.revert test t)

/-- The word for a tweak that is being worked on. -/
def startedWord : Action → String
  | .apply => "Applying"
  | .revert => "Reverting"

/-- The word for a tweak that was worked on. -/
def finishedWord (action : Action) (r : Result) : String :=
  if !r.success then "Failed"
  else match action with
    | .apply => "Completed"
    | .revert => "Reverted"

/-- The rest of a batch, after `index` of `total` tweaks. -/
def runFrom (e : Engine μ) (part : Part S (Session μ)) (action : Action)
    (sink : Option (Progress → Act S Unit)) (cancelled : S → Bool) (total : Nat) :
    Nat → List Tweak → Assoc String Result → Act S (Assoc String Result)
  | _, [], results => return results
  | index, t :: rest, results => do
    if ← Act.view cancelled then
      part.lift (Session.say .info speaker
        ("Batch cancelled with " ++ toString (total - index) ++ " tweaks remaining"))
      return results
    report part sink ⟨total, index, t.name, startedWord action⟩
    let r ← e.runOne part action cancelled t
    report part sink ⟨total, index + 1, t.name, finishedWord action r⟩
    runFrom e part action sink cancelled total (index + 1) rest (Assoc.put t.id r results)

/-- Applies or reverts tweaks one after the other.  Only tweaks that were begun have a
result. -/
def runBatch (e : Engine μ) (part : Part S (Session μ)) (action : Action) (tweaks : List Tweak)
    (sink : Option (Progress → Act S Unit)) (cancelled : S → Bool) : Act S (Assoc String Result) :=
  e.runFrom part action sink cancelled tweaks.length 0 tweaks []

end Engine
end TweakEngine
