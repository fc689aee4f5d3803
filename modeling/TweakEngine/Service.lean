/-
# The service

The service joins catalog, detection, execution and the board under one configuration,
and is what a front end calls.  Its state is a `Program`; its fixed parts, which follow
from the configuration when it is opened, are a `Service`.  After every apply and revert
the board forgets what it knows.
-/

import TweakEngine.Board
import TweakEngine.Config
import TweakEngine.Detection.WellKnown
import TweakEngine.Execution.Batch
import TweakEngine.System.DryRun
import TweakEngine.System.RestorePoint

namespace TweakEngine

/-- The state of a service. -/
structure Program (μ : Type) where
  config : Config
  catalog : Catalog
  board : Board
  session : Session μ

/-- A program that knows nothing yet of its host. -/
def Program.idle {μ : Type} (config : Config) (catalog : Catalog) (host : Host μ) : Program μ :=
  { config, catalog, board := { ttl := 0 }, session := { host } }

/-- An action of a service. -/
abbrev Task (μ : Type) := Act (Program μ)

namespace Program

variable {μ : Type}

/-- The session of a program. -/
def sessionPart : Part (Program μ) (Session μ) :=
  ⟨Program.session, fun s p => { p with session := s }⟩

/-- The host of a program. -/
def hostPart : Part (Program μ) (Host μ) := sessionPart.inside Session.hostPart

/-- The board of a program with its catalog and its host. -/
def deskPart : Part (Program μ) (Desk μ) where
  get p := ⟨p.board, p.catalog, p.session.host⟩
  set d p := { p with
    board := d.board
    catalog := d.shelf.catalog
    session := { p.session with host := d.shelf.host } }

/-- The catalog of a program with its host. -/
def shelfPart : Part (Program μ) (Shelf μ) := deskPart.inside Desk.shelfPart

/-- An action on the host alone. -/
def onHost {α : Type} (a : Call μ α) : Task μ α := hostPart.lift a

/-- An action on the files alone. -/
def onDisk {α : Type} (a : Act Disk α) : Task μ α := onHost (Host.onDisk a)

/-- An action on the board. -/
def onDesk {α : Type} (a : Act (Desk μ) α) : Task μ α := deskPart.lift a

/-- An action on the catalog. -/
def onShelf {α : Type} (a : Act (Shelf μ) α) : Task μ α := shelfPart.lift a

end Program

/-- What a service works with. -/
structure Service (μ : Type) where
  engine : Engine μ
  detector : Detector μ
  restore : RestorePoints

/-- What a service is told about its surroundings. -/
structure Surroundings (μ : Type) where
  probe : Probe μ
  mutator : Mutator μ
  /-- Whether the service has administrator rights. -/
  elevated : Bool
  /-- Whether the platform has restore points. -/
  restorePoints : Bool := false

/-- The platform that a service runs on. -/
structure Platform where
  name : String
  architecture : String
  interpreter : String
  /-- Release and version of the system. -/
  release : String := ""
  version : String := ""

/-- Progress reports and cancellation of a batch, over the whole program. -/
structure Control (μ : Type) where
  sink : Option (Progress → Task μ Unit) := none
  cancelled : Program μ → Bool := fun _ => false

namespace Service

open Program

variable {μ : Type}

/-- The speaker of the service. -/
def speaker : String := "tweakd"

/-- The service that a configuration asks for. -/
def ofConfig (config : Config) (world : Surroundings μ) : Service μ :=
  let dryRun := config.execution.dryRun.truthy
  let detector := Detector.over world.probe config.detection.useWellKnown.truthy
    config.detection.scriptTimeout
  { detector
    restore := ⟨world.restorePoints, dryRun⟩
    engine :=
      { mutator := if dryRun then world.mutator.dryRun else world.mutator
        detector := some detector
        skipIfApplied := config.execution.skipIfApplied.truthy
        requireElevation := config.execution.requireElevation.truthy && !dryRun
        elevated := world.elevated
        targetUser := config.execution.targetUser } }

/-- Starts a service for the configuration of a program.  Captures are written to a
store, except in a dry run. -/
def start (world : Surroundings μ) : Task μ (Service μ) := do
  let config ← Act.view Program.config
  if config.execution.captureSnapshots.truthy && !config.execution.dryRun.truthy then
    let store ← onHost (Snapshot.Store.openAt config.snapshots)
    sessionPart.lift (Session.putStore store)
  let board ← Act.result (Board.withTtl config.detection.cacheTtl)
  onDesk (Desk.changeBoard fun _ => board)
  return ofConfig config world

/-- The catalog in the folder that a configuration names. -/
def folderOf (config : Config) : Catalog := .folder { directory := config.tweaks }

/-! ## Catalog -/

/-- Whether a tweak is hidden. -/
def isDisabled (tweakId : String) : Task μ Bool := do
  Act.result ((← Act.view Program.config).isDisabled tweakId)

/-- The tweaks that are not hidden. -/
def enabled (tweaks : List Tweak) : Task μ (List Tweak) :=
  tweaks.filterM fun t => do return !(← isDisabled t.id)

/-- All tweaks that are not hidden. -/
def tweaks : Task μ (List Tweak) := do enabled (← onShelf Catalog.tweaks)

/-- The tweak with an identifier. -/
def find? (tweakId : String) : Task μ (Option Tweak) := onShelf (Catalog.find? tweakId)

/-- The tweaks of a category that are not hidden. -/
def inCategory (category : String) : Task μ (List Tweak) := do
  enabled (← onShelf (Catalog.inCategory category))

/-- The tweaks that hold a text and are not hidden. -/
def search (term : String) : Task μ (List Tweak) := do
  enabled (← onShelf (Catalog.search term))

/-- The categories, sorted. -/
def categories : Task μ (List Datum) := onShelf Catalog.categories

/-- Hides a tweak. -/
def disable (tweakId : String) : Task μ Unit := do
  let config ← Act.result ((← Act.view Program.config).disable tweakId)
  Act.change fun p => { p with config }

/-! ## Statuses -/

/-- The tweaks that are not hidden, with their statuses. -/
def items (s : Service μ) : Task μ (List Item) := do
  (← onDesk (Desk.items s.detector.watcher)).filterM fun i => do
    return !(← isDisabled i.tweak.id)

/-- The status of a tweak. -/
def statusOf (s : Service μ) (tweakId : String) : Task μ Status :=
  onDesk (Desk.statusOf s.detector.watcher tweakId)

/-- Looks at all tweaks again. -/
def refresh (s : Service μ) : Task μ Unit := onDesk (Desk.refresh s.detector.watcher)

/-- The categories that are recommended whatever their severity. -/
def recommendedCategories : List String := ["privacy", "performance"]

/-- Whether a tweak is recommended. -/
def isRecommended (t : Tweak) : Except Failure Bool := do
  let category ← Catalog.foldedField t.category
  return recommendedCategories.contains category || t.severity ≤ .medium

/-- Goes on with recommendations until there are enough; this is looked at after each
tweak that is not applied. -/
def recommendFrom (limit : Int) : List Tweak → List Item → Except Failure (List Tweak)
  | chosen, [] => .ok chosen
  | chosen, i :: rest => do
    if i.status.detectedApplied then recommendFrom limit chosen rest
    else
      let chosen := if ← isRecommended i.tweak then chosen ++ [i.tweak] else chosen
      if limit ≤ chosen.length then return chosen else recommendFrom limit chosen rest

/-- Tweaks that are recommended and not applied. -/
def recommended (s : Service μ) (limit : Int) : Task μ (List Tweak) := do
  Act.result (recommendFrom limit [] (← s.items))

/-! ## Running tweaks -/

/-- The tweaks with given identifiers, and the results of those that cannot be run. -/
def resolve : List String → Task μ (List Tweak × Assoc String Result)
  | [] => return ([], [])
  | ids => go ids [] []
where
  /-- Goes through the identifiers. -/
  go : List String → List Tweak → Assoc String Result → Task μ (List Tweak × Assoc String Result)
    | [], found, rejected => return (found, rejected)
    | id :: ids, found, rejected => do
      match ← find? id with
      | none =>
        go ids found (Assoc.put id (Result.unsuccessful id ("Tweak not found: " ++ id)) rejected)
      | some t =>
        if ← isDisabled t.id then
          go ids found (Assoc.put t.id
            (Result.unsuccessful t.id "Tweak is disabled in configuration") rejected)
        else go ids (found ++ [t]) rejected

/-- Makes a restore point where the system allows it. -/
def makeRestorePoint (s : Service μ) (description : String) : Call μ (Option Int) := do
  if ← s.restore.isEnabled then s.restore.create description
  else
    Host.say .warning speaker "System Restore is not enabled, no restore point created"
    return none

/-- Runs a batch. -/
def runBatch (e : Engine μ) (action : Action) (tweaks : List Tweak) (c : Control μ) :
    Task μ (Assoc String Result) :=
  e.runBatch sessionPart action tweaks c.sink c.cancelled

/-- Applies tweaks; with `force` also those that are applied already. -/
def runApply (s : Service μ) (tweaks : List Tweak) (c : Control μ) (force : Bool) :
    Task μ (Assoc String Result) := do
  if tweaks.isEmpty then return []
  if (← Act.view Program.config).execution.createRestorePoint.truthy then
    discard (onHost (s.makeRestorePoint
      ("Before applying " ++ toString tweaks.length ++ " tweak(s)")))
  let e := if force then { s.engine with skipIfApplied := false } else s.engine
  runBatch e .apply tweaks c

/-- Applies the tweaks with given identifiers. -/
def apply (s : Service μ) (ids : List String) (c : Control μ) (force : Bool) :
    Task μ (Assoc String Result) := do
  let (tweaks, results) ← resolve ids
  let results := Assoc.update results (← s.runApply tweaks c force)
  onDesk (Desk.changeBoard Board.invalidate)
  return results

/-- Reverts the tweaks with given identifiers. -/
def revert (s : Service μ) (ids : List String) (c : Control μ) : Task μ (Assoc String Result) := do
  let (tweaks, results) ← resolve ids
  let results := Assoc.update results (← runBatch s.engine .revert tweaks c)
  onDesk (Desk.changeBoard Board.invalidate)
  return results

/-- The changes that did not run to their end and whose tweaks are still known. -/
def unfinished (results : Assoc String Result) (changes : List Change) : Task μ (List Change) :=
  let finished := (results.filter fun e => !e.2.cancelled).map fun e => Text.fold e.1
  changes.filterM fun c => do
    if finished.contains (Text.fold c.tweakId) then return false
    return (← find? c.tweakId).isSome

/-- Carries out what waits on the board, first what is to be applied.  What a
cancellation kept from running waits on. -/
def applyPending (s : Service μ) (c : Control μ) : Task μ (Assoc String Result) := do
  let toApply ← onDesk (Desk.take (some .apply))
  let toRevert ← onDesk (Desk.take (some .revert))
  let results ← s.runApply (← onDesk (Desk.tweaksOf toApply)) c false
  let results ←
    if ← Act.view c.cancelled then pure results
    else do
      let tweaks ← onDesk (Desk.tweaksOf toRevert)
      pure (Assoc.update results (← runBatch s.engine .revert tweaks c))
  let left ← unfinished results (toApply ++ toRevert)
  onDesk (Desk.putBack left)
  onDesk (Desk.changeBoard Board.invalidate)
  return results

/-! ## Files and the system -/

/-- Writes definitions to a file, those of all tweaks that are not hidden if none are
given, and tells how many. -/
def exportTo (file : Path) (chosen : Option (List Tweak)) : Task μ Nat := do
  let chosen ← match chosen with
    | some ts => pure ts
    | none => tweaks
  let now ← onHost Host.now
  let entries ← Act.result (chosen.mapM Tweak.toDatum)
  onDisk (Disk.makeDirs file.parent)
  onDisk (Disk.writeJson file (.object
    [("exportedAt", .text now.text), ("version", .text appVersion), ("tweaks", .list entries)]))
  onHost (Host.say .info speaker
    ("Exported " ++ toString chosen.length ++ " tweaks to " ++ file.text))
  return chosen.length

/-- The definitions in an exported file or in a bare list. -/
def definitions (name : String) : Datum → Except Failure (List Datum)
  | .list entries => .ok entries
  | .object fields =>
    match Assoc.get? "tweaks" fields with
    | none | some .null => .error (.malformed (.noTweaks name))
    | some (.list entries) => .ok entries
    | some _ => .error (.malformed (.tweaksNotList name))
  | _ => .error (.malformed (.tweaksNotList name))

/-- Reads definitions from a file. -/
def importFrom (file : Path) : Task μ (List Tweak) := do
  let d ← onDisk (Disk.readJson file)
  let entries ← Act.result (definitions file.name d)
  onHost (entries.mapM (Catalog.readTweak file.name))

/-- Facts about the system, for display. -/
def info (s : Service μ) (p : Platform) : Task μ Datum := do
  let dryRun := (← Act.view Program.config).execution.dryRun
  let orUnknown (text : String) : Datum := .text (if text = "" then "Unknown" else text)
  let facts : List (String × Datum) :=
    [("platform", .text p.name), ("architecture", orUnknown p.architecture),
     ("python_version", .text p.interpreter), ("elevated", .bool s.engine.elevated),
     ("dry_run", dryRun)]
  if p.name ≠ "win32" then return .object facts
  let build := (Text.splitOnChar '.' p.version).getLastD ""
  let number ←
    if build ≠ "" && build.toList.all Text.isDigit then Act.result (Datum.text build).toInt
    else pure 0
  return .object (facts ++
    [("windows_version", orUnknown p.release), ("windows_build", orUnknown build),
     ("is_windows_11", .bool (22000 ≤ number))])

end Service
end TweakEngine
