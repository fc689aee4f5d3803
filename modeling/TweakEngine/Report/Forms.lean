/-
# Results in JSON

The JSON forms of statuses, results, progress reports, captures, and what a service
answers, with every field.
-/

import TweakEngine.Service

namespace TweakEngine

/-- The JSON form of a status. -/
def Status.toDatum (s : Status) : Datum := .object
  [("tweak_id", .text s.tweakId), ("is_applied", .bool s.isApplied),
   ("can_detect", .bool s.canDetect), ("confidence", s.confidence.toDatum),
   ("message", .text s.message), ("last_checked", .text s.lastChecked.text),
   ("details", .object s.details)]

/-- The JSON form of an outcome. -/
def Outcome.toDatum (o : Outcome Number) : Datum :=
  .list [.bool o.matched, o.confidence.toDatum, .text o.message]

/-- The JSON form of a result; `sort` names the sort of a failure. -/
def Result.toDatum (sort : Failure → String) (r : Result) : Datum := .object
  [("success", .bool r.success), ("tweak_id", .text r.tweakId),
   ("error_message", .ofText? r.errorMessage), ("error", .ofText? (r.error.map sort)),
   ("applied", .list r.applied), ("failed", .list r.failed), ("messages", .list r.messages),
   ("requires_restart", .bool r.requiresRestart), ("ms", r.millis.toDatum),
   ("cancelled", .bool r.cancelled), ("skipped", .bool r.skipped),
   ("has_failures", .bool r.hasFailures)]

/-- The JSON form of a progress report. -/
def Progress.toDatum (p : Progress) : Datum :=
  .list [.int p.completed, .int p.total, p.name, .text p.phase, .float p.percent]

/-- The JSON form of a capture in the registry, or of its absence. -/
def RegistryCapture.toDatum : Option RegistryCapture → Datum
  | some c =>
    .list [.bool c.existed, .bool c.keyExisted, (c.value.map Datum.registry).getD .null]
  | none => .list [.null, .null, .null]

/-- The JSON form of a capture of a service, or of its absence. -/
def ServiceCapture.toDatum : Option ServiceCapture → Datum
  | some c => .list [.text c.startup.label, .ofLabel? c.state]
  | none => .list [.null, .null]

/-- The JSON form of a capture of a file, or of its absence. -/
def FileCapture.toDatum : Option FileCapture → Datum
  | some c => .list [.bool c.existed, c.content]
  | none => .list [.null, .null]

/-- The captures of the operations that apply a tweak, in their order. -/
def Memory.toDatum (m : Memory) (t : Tweak) : Datum :=
  let each {α : Type} (captures : Captures α) (count : Nat) (form : Option α → Datum) : Datum :=
    .list ((List.range count).map fun i => form (captures.at? ⟨t.id, .apply, i⟩))
  .object
    [("registry", each m.registry t.operations.registry.length RegistryCapture.toDatum),
     ("services", each m.services t.operations.services.length ServiceCapture.toDatum),
     ("files", each m.files t.operations.files.length FileCapture.toDatum)]

/-- The JSON form of a tweak with its status. -/
def Item.toDatum (i : Item) : Datum := .object
  [("id", .text i.tweak.id), ("status", i.status.toDatum), ("pending", .ofLabel? i.pending),
   ("has_pending", .bool i.pending.isSome)]

/-- The JSON form of a change that waits. -/
def Change.toDatum (c : Change) : Datum :=
  .list [.text c.tweakId, c.tweakName, .text c.action.label, .text c.addedAt.text]

/-- The JSON form of a restore point. -/
def RestorePoint.toDatum (p : RestorePoint) : Datum :=
  .list [.int p.number, .text p.description, .ofText? (p.created.map Moment.text)]

/-- The JSON form of what a command gave. -/
def ShellResult.toDatum (r : ShellResult) : Datum := .object
  [("success", .bool r.success), ("output", .text r.output), ("error", .text r.error)]

namespace Host

variable {μ : Type}

/-- The progress reports on the trail of a host, oldest first. -/
def progressDatum (h : Host μ) : Datum :=
  .list (h.trail.filterMap fun e => match e with
    | .progressed p => some p.toDatum
    | _ => none).reverse

/-- The processes on the trail of a host, oldest first. -/
def processesDatum (h : Host μ) : Datum :=
  .list (h.trail.filterMap fun e => match e with
    | .ran command timeout => some (.object [("cmd", .list command), ("timeout", timeout)])
    | _ => none).reverse

end Host

end TweakEngine
