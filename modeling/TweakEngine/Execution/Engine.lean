/-
# The execution engine

An engine changes a system through its mutator.  `Engine.resolve` says where an
operation on the registry goes: with a target user, changes of the current user's hive
go to the hive of that user.
-/

import TweakEngine.Detection.Detector
import TweakEngine.Execution.Session

namespace TweakEngine

/-- How tweaks are applied and reverted. -/
structure Engine (μ : Type) where
  mutator : Mutator μ
  /-- Tells which tweaks are applied already. -/
  detector : Option (Detector μ) := none
  /-- Tweaks that are applied already are not applied again. -/
  skipIfApplied : Bool := true
  /-- Privileged operations are refused without administrator rights. -/
  requireElevation : Bool := true
  /-- Whether the engine has administrator rights. -/
  elevated : Bool := true
  /-- The user whose hive is changed; empty for the current user. -/
  targetUser : Datum := .text ""

namespace Engine

variable {μ : Type}

/-- The speaker of the engine. -/
def speaker : String := "tweakd.actions.executor"

/-- The speaker of finished actions. -/
def actionSpeaker : String := "tweakd.actions"

/-- Where an operation on the registry goes. -/
def resolve (e : Engine μ) (hive : Hive) (keyPath : Datum) : Call μ (Hive × Datum) := do
  if hive ≠ .currentUser || !e.targetUser.truthy then return (hive, keyPath)
  if !(← e.mutator.keyExists .users e.targetUser) then
    throw (.refused "Cannot access original user's registry hive")
  return (.users, .text (e.targetUser.display ++ "\\" ++ keyPath.display))

/-- Whether operations may run. -/
def mayRun (e : Engine μ) (ops : OperationSet) : Bool :=
  !e.requireElevation || !ops.requiresElevation || e.elevated

/-- Puts a finished action on record. -/
def recordAction (action : String) (name : Datum) (success : Bool) (details : String) :
    Call μ Unit :=
  Host.say (if success then .info else .error) actionSpeaker
    (action ++ " | " ++ name.display ++ " | " ++ (if success then "SUCCESS" else "FAILED") ++
      (if details = "" then "" else " | " ++ details))

end Engine
end TweakEngine
