/-
# Running single operations

How each sort of operation is run and how it is restored.  Running captures first what
is there; restoring puts that back and drops the capture.  Both give a note when there
was nothing to do, and nothing otherwise.
-/

import TweakEngine.Execution.Engine

namespace TweakEngine
namespace Engine

variable {μ : Type}

open Session

/-- A write of the engine's mutator. -/
def write (e : Engine μ) (w : Write) : Work μ w.Reply := onHost (e.mutator.write w)

/-- What is said when nothing was captured. -/
def nothingCaptured : String := "nothing captured to restore"

/-- Makes or removes a key. -/
def runKey (e : Engine μ) (slot : Slot) (hive : Hive) (keyPath : Datum) (create : Bool) :
    Work μ (Option String) := do
  let existed ← onHost (e.mutator.keyExists hive keyPath)
  discard (capture registryPart slot (RegistryCapture.of existed none existed))
  if create then
    discard (e.write (.createKey hive keyPath))
    return none
  else if ← e.write (.deleteKey hive keyPath) then return none
  else return some "key did not exist"

/-- Captures a value before it is changed. -/
def captureValue (e : Engine μ) (slot : Slot) (hive : Hive) (keyPath name : Datum) :
    Work μ Unit := do
  let reading ← onHost (e.mutator.readValue hive keyPath name)
  discard (capture registryPart slot
    (RegistryCapture.of reading.valueExists reading.value? reading.keyExists))

/-- Runs an operation on the registry. -/
def runRegistry (e : Engine μ) (slot : Slot) (op : RegistryOperation) :
    Work μ (Option String) := do
  let (hive, keyPath) ← onHost (e.resolve op.hive op.keyPath)
  match op.action with
  | .createKey => e.runKey slot hive keyPath true
  | .deleteKey => e.runKey slot hive keyPath false
  | .setValue => do
    e.captureValue slot hive keyPath op.valueName
    match ← Act.result op.resolveValue with
    | none => throw (.malformed .noValue)
    | some value =>
      e.write (.setValue hive keyPath op.valueName value)
      return none
  | .deleteValue => do
    e.captureValue slot hive keyPath op.valueName
    if ← e.write (.deleteValue hive keyPath op.valueName) then return none
    else return some "value did not exist"

/-- The write that restores a registry operation, if one is needed. -/
def restoringWrite (op : RegistryOperation) (c : RegistryCapture) (hive : Hive)
    (keyPath : Datum) : Option Write :=
  match op.action with
  | .createKey => if c.existed then none else some (.deleteKey hive keyPath)
  | .deleteKey => if c.existed then some (.createKey hive keyPath) else none
  | .setValue | .deleteValue =>
    match c.existed, c.value with
    | true, some value => some (.setValue hive keyPath op.valueName value)
    | _, _ => some (.deleteValue hive keyPath op.valueName)

/-- Restores what an operation changed in the registry. -/
def restoreRegistry (e : Engine μ) (slot : Slot) (op : RegistryOperation) :
    Work μ (Option String) := do
  match ← captured? registryPart slot with
  | none => return some nothingCaptured
  | some c =>
    let (hive, keyPath) ← onHost (e.resolve op.hive op.keyPath)
    match restoringWrite op c hive keyPath with
    | some w => discard (e.write w)
    | none => pure ()
    release registryPart slot
    return none

/-- The write of an operation on a service. -/
def serviceWrite (op : ServiceOperation) : Except Failure Write :=
  match op.action with
  | .stop => .ok (.stopService op.service)
  | .start => .ok (.startService op.service)
  | .disable => .ok (.setStartup op.service .disabled)
  | .enable => .ok (.setStartup op.service (op.startup.getD .automatic))
  | .setStartupType => match op.startup with
    | some t => .ok (.setStartup op.service t)
    | none => .error (.malformed .noStartupType)

/-- Runs an operation on a service. -/
def runService (e : Engine μ) (slot : Slot) (op : ServiceOperation) : Work μ (Option String) := do
  let snapshot ← onHost (e.mutator.queryService op.service)
  if !snapshot.found then throw (.refused ("Service not found: " ++ op.service.display))
  discard (capture servicesPart slot ⟨snapshot.startup, some snapshot.state⟩)
  discard (e.write (← Act.result (serviceWrite op)))
  return none

/-- The write that brings a service back to its state, if one is needed. -/
def stateWrite (service : Datum) (before : Option RunState) (current : RunState) :
    Option Write :=
  if before = some .running ∧ current ≠ .running then some (.startService service)
  else if before = some .stopped ∧ current = .running then some (.stopService service)
  else none

/-- Restores what an operation changed of a service. -/
def restoreService (e : Engine μ) (slot : Slot) (op : ServiceOperation) :
    Work μ (Option String) := do
  match ← captured? servicesPart slot with
  | none => return some nothingCaptured
  | some c =>
    if c.startup ≠ .unknown then e.write (.setStartup op.service c.startup)
    let current ← onHost (e.mutator.queryService op.service)
    match stateWrite op.service c.state current.state with
    | some w => discard (e.write w)
    | none => pure ()
    release servicesPart slot
    return none

/-- Runs the text of a script operation. -/
def runText (e : Engine μ) (op : ScriptOperation) (script : Datum) : Work μ (Option String) := do
  if (← Act.result (Detection.trimmed script)) = "" then throw (.malformed .emptyScript)
  if op.elevated then say .info speaker "Elevated scripts run without captured output"
  let outcome ← e.write (.runScript script (.int op.timeout) op.elevated)
  if outcome.timedOut then
    throw (.scriptTimeout
      ("Script operation timed out after " ++ Decimal.intText op.timeout ++ "s"))
  if outcome.exitCode ≠ some 0 then
    let stderr ← Act.result (trimmedOutput outcome.stderr)
    let detail ← if stderr ≠ "" then pure stderr else Act.result (trimmedOutput outcome.stdout)
    let message := "Script exited with code " ++ Detection.exitText outcome.exitCode
    throw (.refused (if detail = "" then message else message ++ ": " ++ detail))
  return none
where
  /-- The output of a script without blanks at its ends. -/
  trimmedOutput : Option String → Except Failure String
    | some s => .ok (Text.trim s)
    | none => .error (Failure.lacks .null "strip")

/-- Runs a script operation. -/
def runScript (e : Engine μ) (op : ScriptOperation) : Work μ (Option String) :=
  e.runText op op.script

/-- Undoes a script operation by its own script. -/
def revertScript (e : Engine μ) (op : ScriptOperation) : Work μ (Option String) := do
  if !op.revert.truthy then return some "No revert script"
  e.runText op op.revert

/-- Moves or copies a file. -/
def runTransfer (e : Engine μ) (slot : Slot) (op : FileOperation)
    (w : Write) : Work μ (Option String) := do
  if !op.target.truthy then throw (.malformed (.noTarget (Labelled.label op.action)))
  let existed ← onHost (e.mutator.pathExists op.target)
  discard (capture filesPart slot ⟨existed, .null⟩)
  discard (e.write w)
  return none

/-- Captures a file before it is changed; tells whether it existed and whether this was
the first capture. -/
def captureFile (e : Engine μ) (slot : Slot) (op : FileOperation) : Work μ (Bool × Bool) := do
  let existed ← onHost (e.mutator.pathExists op.path)
  let content ←
    if existed && op.action ≠ .createDirectory then onHost (e.mutator.readText op.path)
    else pure .null
  let kept ← capture filesPart slot ⟨existed, content⟩
  return (existed, kept)

/-- Runs an operation on a file. -/
def runFile (e : Engine μ) (slot : Slot) (op : FileOperation) : Work μ (Option String) := do
  match op.action with
  | .setAttributes | .takeOwnership =>
    throw (.refused ("File operation not implemented: " ++ Labelled.label op.action))
  | .rename => e.runTransfer slot op (.movePath op.path op.target)
  | .copy => e.runTransfer slot op (.copyPath op.path op.target)
  | .delete => do
    let (existed, kept) ← e.captureFile slot op
    if !existed then return some "path not found"
    if op.backup.truthy && kept then e.write (.copyPath op.path op.backup)
    e.write (.deletePath op.path)
    return none
  | .createFile => do
    discard (e.captureFile slot op)
    let content := if op.content.truthy then op.content else .text ""
    e.write (.writeFile op.path content op.createDirectories)
    return none
  | .createDirectory => do
    discard (e.captureFile slot op)
    e.write (.createDirectory op.path)
    return none

/-- Puts back the file that an operation deleted. -/
def undelete (e : Engine μ) (op : FileOperation) (c : FileCapture) : Work μ Unit := do
  let fromBackup ←
    if c.existed && op.backup.truthy then onHost (e.mutator.pathExists op.backup) else pure false
  if fromBackup then e.write (.movePath op.backup op.path)
  else if c.existed then
    if c.content.isNull then
      throw (.refused
        ("Content of " ++ op.path.display ++ " was not captured and cannot be restored"))
    e.write (.writeFile op.path c.content op.createDirectories)

/-- Undoes what an operation did to a file. -/
def undoFile (e : Engine μ) (op : FileOperation) (c : FileCapture) : Work μ Unit := do
  match op.action with
  | .delete => e.undelete op c
  | .createFile =>
    if !c.existed then e.write (.deletePath op.path)
    else if !c.content.isNull then e.write (.writeFile op.path c.content op.createDirectories)
  | .createDirectory =>
    if !c.existed then
      if ← onHost (e.mutator.pathExists op.path) then e.write (.deletePath op.path)
  | .rename =>
    if ← onHost (e.mutator.pathExists op.target) then e.write (.movePath op.target op.path)
  | .copy =>
    if !c.existed then
      if ← onHost (e.mutator.pathExists op.target) then e.write (.deletePath op.target)
  | .setAttributes | .takeOwnership => pure ()

/-- Restores what an operation changed of a file. -/
def restoreFile (e : Engine μ) (slot : Slot) (op : FileOperation) : Work μ (Option String) := do
  match op.action with
  | .setAttributes | .takeOwnership => return some "nothing to restore"
  | _ =>
    match ← captured? filesPart slot with
    | none => return some nothingCaptured
    | some c =>
      e.undoFile op c
      release filesPart slot
      return none

end Engine
end TweakEngine
