/-
# Applying and reverting

`Engine.apply` runs the operations of a tweak, `Engine.revert` its undo operations or
else restores what was captured.  Captures of an earlier run are read before the first
operation, so that they win over what is there now, and written after the last one.
-/

import TweakEngine.Execution.Steps

namespace TweakEngine
namespace Engine

variable {μ : Type}

open Session

/-- Carries out something with the open store; failures of one sort are only said. -/
def withStore (caught : Failure → Bool) (what : String) (tweakId : String)
    (action : Snapshot.Store → Work μ Unit) : Work μ Unit := do
  match ← openStore? with
  | none => return
  | some store =>
    match ← (action store).rescue caught with
    | .ok () => return
    | .error f =>
      say .warning speaker
        ("Could not " ++ what ++ " snapshot for " ++ tweakId ++ ": " ++ f.message)

/-- Writes the captures of a tweak to the store. -/
def saveSnapshot (t : Tweak) : Work μ Unit :=
  withStore (fun f => f.isSystem || f.isValue) "save" t.id fun store =>
    discard (Snapshot.save store t)

/-- Reads the captures of a tweak from the store, unless all are known. -/
def loadSnapshot (t : Tweak) : Work μ Unit := do
  if ← memoryPart.lift (Act.view fun m => m.covers t) then return
  withStore (fun f => f.isSystem || f.isValue || f.isDeclared) "load" t.id fun store =>
    discard (Snapshot.load store t)

/-- Removes the captures of a tweak from the store. -/
def deleteSnapshot (t : Tweak) : Work μ Unit :=
  withStore Failure.isSystem "delete" t.id fun store => discard (Snapshot.delete store t.id)

/-- Whether the detector finds a tweak applied; without a detector nothing is. -/
def alreadyApplied (e : Engine μ) (t : Tweak) : Call μ Bool := do
  match e.skipIfApplied, e.detector with
  | true, some detector =>
    let status ← detector.evaluate t
    if status.detectedApplied then
      Host.say .info speaker ("Skipping " ++ t.id ++ ": already applied")
      return true
    return false
  | _, _ => return false

/-- Finishes a call: how long it took, and the record of it. -/
def finish (action : String) (t : Tweak) (start : Moment) (details : String) (r : Result) :
    Work μ Result := do
  let r := { r with millis := .float (← onHost (Host.millisSince start)) }
  onHost (recordAction action t.name r.success details)
  return r

/-- Refuses a call. -/
def refuse (action : String) (t : Tweak) (start : Moment) (f : Failure) : Work μ Result := do
  say .warning speaker
    ("Refusing to " ++ (if action = "APPLY" then "apply " else "revert ") ++ t.id ++ ": " ++
      f.message)
  finish action t start f.message (Result.refused t.id f)

/-- Applies a tweak. -/
def apply (e : Engine μ) (cancelled : Session μ → Bool) (t : Tweak) : Work μ Result := do
  let start ← onHost Host.now
  if ← onHost (e.alreadyApplied t) then
    finish "APPLY" t start "already applied"
      { success := true, tweakId := t.id, skipped := true
        messages := [.text "Tweak is already applied"] }
  else if !e.mayRun t.operations then refuse "APPLY" t start .notElevated
  else
    say .info speaker
      ("Applying tweak " ++ t.id ++ " (" ++ toString t.operations.count ++ " operations)")
    loadSnapshot t
    let steps ← Act.result (e.runSteps t.id .apply t.operations)
    let r ← execute cancelled steps { success := true, tweakId := t.id }
    saveSnapshot t
    let r := { r with requiresRestart := r.success && t.requiresRestart }
    finish "APPLY" t start r.summary r

/-- The steps that revert a tweak. -/
def revertSteps (e : Engine μ) (t : Tweak) : Work μ (List (Step μ)) := do
  match t.undo? with
  | some ops =>
    say .info speaker ("Reverting tweak " ++ t.id ++ " with its undo operations")
    Act.result (e.runSteps t.id .undo ops)
  | none =>
    say .info speaker ("Reverting tweak " ++ t.id ++ " by restoring captured state")
    loadSnapshot t
    Act.result (e.restoreSteps t.id t.operations)

/-- Reverts a tweak. -/
def revert (e : Engine μ) (cancelled : Session μ → Bool) (t : Tweak) : Work μ Result := do
  let start ← onHost Host.now
  if !t.isReversible then refuse "REVERT" t start (.notReversible t.name.display)
  else if !e.mayRun t.revertOperations then refuse "REVERT" t start .notElevated
  else
    let r ← execute cancelled (← e.revertSteps t) { success := true, tweakId := t.id }
    if r.clean then deleteSnapshot t
    let r := { r with requiresRestart := r.success && t.requiresRestart }
    finish "REVERT" t start r.summary r

end Engine
end TweakEngine
