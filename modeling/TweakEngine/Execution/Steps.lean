/-
# Running steps

A list of operations becomes a list of labelled steps.  `Engine.execute` runs them in
order: an operational failure is recorded against its step and the next step runs, any
other failure ends the run, and so does the cancellation that is looked for before each
step.
-/

import TweakEngine.Execution.Operations

namespace TweakEngine

/-- A labelled step; it gives a note when there was nothing to do. -/
structure Step (μ : Type) where
  label : Datum
  run : Work μ (Option String)

/-- The result of applying or reverting one tweak.  Failed operations alone do not make
it unsuccessful. -/
structure Result where
  success : Bool
  tweakId : String
  errorMessage : Option String := none
  error : Option Failure := none
  applied : List Datum := []
  failed : List Datum := []
  messages : List Datum := []
  requiresRestart : Bool := false
  millis : Number := .float 0
  cancelled : Bool := false
  skipped : Bool := false

namespace Result

/-- The result of a call that was refused. -/
def refused (tweakId : String) (f : Failure) : Result :=
  { success := false, tweakId, errorMessage := some f.message, error := some f }

/-- The result of a call that was refused for a reason in words. -/
def unsuccessful (tweakId text : String) : Result :=
  { success := false, tweakId, errorMessage := some text }

/-- Whether anything went wrong. -/
def hasFailures (r : Result) : Bool := !r.failed.isEmpty || !r.success

/-- Whether everything went well. -/
def clean (r : Result) : Bool := r.success && r.failed.isEmpty

/-- A result in a few words. -/
def summary (r : Result) : String :=
  if r.cancelled then "cancelled after " ++ toString r.applied.length ++ " operations"
  else
    toString r.applied.length ++ " ok, " ++ toString r.failed.length ++ " failed" ++
      match r.errorMessage with
      | some text => if text = "" then "" else " (" ++ text ++ ")"
      | none => ""

end Result

namespace Engine

variable {μ : Type}

open Session

/-- Steps for operations with their places. -/
def stepsFor {ω : Type} (tweakId : String) (side : Side) (ops : List ω)
    (step : Slot → ω → Step μ) : List (Step μ) :=
  ops.zipIdx.map fun (op, i) => step ⟨tweakId, side, i⟩ op

/-- A description of what is restored or reverted. -/
def undoing (word : String) (label : Datum) : Datum := .text (word ++ ": " ++ label.display)

/-- The steps that run operations, in order. -/
def runSteps (e : Engine μ) (tweakId : String) (side : Side) (ops : OperationSet) :
    Except Failure (List (Step μ)) := do
  let scripts ← ops.scripts.mapM fun op => do return (⟨← op.describe, e.runScript op⟩ : Step μ)
  return stepsFor tweakId side ops.registry (fun slot op => ⟨op.describe, e.runRegistry slot op⟩) ++
    stepsFor tweakId side ops.services (fun slot op => ⟨op.describe, e.runService slot op⟩) ++
    scripts ++
    stepsFor tweakId side ops.files (fun slot op => ⟨op.describe, e.runFile slot op⟩)

/-- The steps that restore what operations changed, in the opposite order. -/
def restoreSteps (e : Engine μ) (tweakId : String) (ops : OperationSet) :
    Except Failure (List (Step μ)) := do
  let scripts ← ops.scripts.reverse.mapM fun op => do
    return (⟨undoing "Revert" (← op.describe), e.revertScript op⟩ : Step μ)
  return (stepsFor tweakId .apply ops.files fun slot op =>
      ⟨undoing "Restore" op.describe, e.restoreFile slot op⟩).reverse ++
    scripts ++
    (stepsFor tweakId .apply ops.services fun slot op =>
      ⟨undoing "Restore" op.describe, e.restoreService slot op⟩).reverse ++
    (stepsFor tweakId .apply ops.registry fun slot op =>
      ⟨undoing "Restore" op.describe, e.restoreRegistry slot op⟩).reverse

/-- Runs one step and records its outcome; gives the failure that ends the run, if any. -/
def runStep (s : Step μ) (r : Result) : Work μ (Result × Option Failure) := do
  let label := s.label.display
  match ← s.run.attempt with
  | .ok none =>
    say .debug speaker ("Completed: " ++ label)
    return ({ r with applied := r.applied ++ [s.label] }, none)
  | .ok (some note) =>
    return ({ r with messages := r.messages ++ [.text (label ++ ": " ++ note)] }, none)
  | .error f =>
    if f.isOperational then
      say .warning speaker ("Operation failed: " ++ label ++ ": " ++ f.message)
      return ({ r with failed := r.failed ++ [.text (label ++ ": " ++ f.message)] }, none)
    else return (r, some f)

/-- Runs steps in order, unless `cancelled` holds before one of them. -/
def execute (cancelled : Session μ → Bool) : List (Step μ) → Result → Work μ Result
  | [], r => return r
  | s :: rest, r => do
    if ← Act.view cancelled then
      say .info speaker
        ("Cancelled " ++ r.tweakId ++ " after " ++ toString r.applied.length ++ " operations")
      return { r with
        success := false
        cancelled := true
        errorMessage := some Failure.stopped.message
        error := some Failure.stopped }
    match ← runStep s r with
    | (r, none) => execute cancelled rest r
    | (r, some f) =>
      onHost (Host.report
        { level := .error
          speaker
          text := "Unexpected error running " ++ r.tweakId
          failure := some f })
      return { r with
        success := false
        errorMessage := some ("Unexpected error: " ++ f.message)
        error := some f }

end Engine
end TweakEngine
