/-
# Configuration

Where the data of the engine is kept and how it behaves.  Settings hold what the
configuration file holds and are interpreted where they are used.  A directory that is
not absolute lies below the configuration directory; a file that names another
configuration directory moves the directories that it does not name along with it.
-/

import TweakEngine.Datum.Items
import TweakEngine.Disk.Json

namespace TweakEngine

/-- The version of the application. -/
def appVersion : String := "0.1.0"

namespace Config

/-- How detection behaves. -/
structure Detection where
  /-- How many seconds a scan stays fresh. -/
  cacheTtl : Datum := .int 300
  useWellKnown : Datum := .bool true
  scriptTimeout : Datum := .int 30

/-- How tweaks are applied and reverted. -/
structure Execution where
  skipIfApplied : Datum := .bool true
  dryRun : Datum := .bool false
  captureSnapshots : Datum := .bool true
  requireElevation : Datum := .bool true
  /-- The user whose part of the registry is changed; empty for the current one. -/
  targetUser : Datum := .text ""
  createRestorePoint : Datum := .bool false

/-- How the command line behaves. -/
structure Display where
  useColors : Datum := .bool true
  confirm : Datum := .bool true

end Config

/-- Where the data of the engine is kept and how it behaves. -/
structure Config where
  directory : Path
  tweaks : Path
  snapshots : Path
  logs : Path
  detection : Config.Detection := {}
  execution : Config.Execution := {}
  display : Config.Display := {}
  /-- The identifiers of the tweaks that are hidden. -/
  disabled : Datum := .list []

namespace Config

/-- The configuration directory in a home directory. -/
def defaultDirectory (home : String) : Path := (Path.ofText home).child "Tweakd"

/-- The configuration file in a home directory. -/
def defaultFile (home : String) : Path := (defaultDirectory home).child "config.json"

/-- The configuration with all directories below one. -/
def below (directory : Path) : Config :=
  { directory
    tweaks := directory.child "tweaks"
    snapshots := directory.child "snapshots"
    logs := directory.child "logs" }

/-- The configuration without a file. -/
def default (home : String) : Config := below (defaultDirectory home)

/-- The names of the fields of a configuration file in the order in which they are read. -/
def fieldNames : List String :=
  ["config_dir", "tweaks_dir", "snapshots_dir", "logs_dir", "detection", "execution", "ui"]

/-- Whether a text or a list holds the name of a field. -/
def mentions (d : Datum) (name : String) : Bool :=
  match d with
  | .text s => Text.contains s name
  | .list items | .tuple items => items.any fun e => e.same (.text name)
  | _ => false

/-- The refusal of a value that is no object. -/
def refusal (d : Datum) : Failure :=
  match d with
  | .text _ | .list _ | .tuple _ =>
    match fieldNames.find? (mentions d) with
    | some _ => .mistyped "indices must be integers"
    | none => Failure.lacks d "get"
  | d => .mistyped ("argument of type '" ++ d.form ++ "' is not iterable")

/-- A setting of a section, or its default. -/
def setting (section_ : List (String × Datum)) (name : String) (default : Datum) : Datum :=
  (Assoc.get? name section_).getD default

/-- A section out of the fields of a file; a file without it has the default section. -/
def readSection {α : Type} (fields : List (String × Datum)) (name : String) (default : α)
    (read : List (String × Datum) → α) : Except Failure α :=
  match Assoc.get? name fields with
  | none => .ok default
  | some (.object s) => .ok (read s)
  | some d => .error (Failure.lacks d "get")

/-- The section about detection. -/
def readDetection (s : List (String × Datum)) : Detection :=
  { cacheTtl := setting s "cache_ttl_seconds" (.int 300)
    useWellKnown := setting s "use_well_known_detectors" (.bool true)
    scriptTimeout := setting s "script_timeout_seconds" (.int 30) }

/-- The section about execution. -/
def readExecution (s : List (String × Datum)) : Execution :=
  { skipIfApplied := setting s "skip_if_applied" (.bool true)
    dryRun := setting s "dry_run" (.bool false)
    captureSnapshots := setting s "capture_snapshots" (.bool true)
    requireElevation := setting s "require_elevation" (.bool true)
    targetUser := setting s "target_user_sid" (.text "")
    createRestorePoint := setting s "create_restore_point" (.bool false) }

/-- The section about the command line. -/
def readDisplay (s : List (String × Datum)) : Display :=
  { useColors := setting s "use_colors" (.bool true)
    confirm := setting s "confirm_before_action" (.bool true) }

/-- A directory that a file names, or a default, seen from the configuration directory. -/
def readPath (fields : List (String × Datum)) (name default : String) (directory : Path) :
    Except Failure Path := do
  let named ← match Assoc.get? name fields with
    | some d => Path.ofDatum d
    | none => .ok (Path.ofText default)
  return directory.under named

/-- A configuration out of its JSON form. -/
def ofDatum (home : String) (d : Datum) : Except Failure Config :=
  match d with
  | .object fields => do
    let directory ← match Assoc.get? "config_dir" fields with
      | some d => Path.ofDatum d
      | none => .ok (defaultDirectory home)
    return {
      directory
      tweaks := ← readPath fields "tweaks_dir" "tweaks" directory
      snapshots := ← readPath fields "snapshots_dir" "snapshots" directory
      logs := ← readPath fields "logs_dir" "logs" directory
      detection := ← readSection fields "detection" {} readDetection
      execution := ← readSection fields "execution" {} readExecution
      display := ← readSection fields "ui" {} readDisplay
      disabled := setting fields "disabled_tweaks" (.list []) }
  | d => .error (refusal d)

/-- The JSON form of a configuration. -/
def toDatum (c : Config) : Datum := .object
  [("config_dir", .text c.directory.text),
   ("tweaks_dir", .text c.tweaks.text),
   ("snapshots_dir", .text c.snapshots.text),
   ("logs_dir", .text c.logs.text),
   ("detection", .object
     [("cache_ttl_seconds", c.detection.cacheTtl),
      ("use_well_known_detectors", c.detection.useWellKnown),
      ("script_timeout_seconds", c.detection.scriptTimeout)]),
   ("execution", .object
     [("skip_if_applied", c.execution.skipIfApplied),
      ("dry_run", c.execution.dryRun),
      ("capture_snapshots", c.execution.captureSnapshots),
      ("require_elevation", c.execution.requireElevation),
      ("target_user_sid", c.execution.targetUser),
      ("create_restore_point", c.execution.createRestorePoint)]),
   ("ui", .object
     [("use_colors", c.display.useColors),
      ("confirm_before_action", c.display.confirm)]),
   ("disabled_tweaks", c.disabled)]

/-- The folded identifiers of the hidden tweaks. -/
def hidden (c : Config) : Except Failure (List String) := do
  (← c.disabled.iterate).mapM fun d => match d with
    | .text s => return Text.fold s
    | d => throw (Failure.lacks d "casefold")

/-- Whether a tweak is hidden. -/
def isDisabled (c : Config) (tweakId : String) : Except Failure Bool := do
  return (← c.hidden).contains (Text.fold tweakId)

/-- Hides a tweak. -/
def disable (c : Config) (tweakId : String) : Except Failure Config :=
  match c.disabled with
  | .list items => .ok { c with disabled := .list (items ++ [.text tweakId]) }
  | d => .error (Failure.lacks d "append")

/-- Makes the directories of a configuration. -/
def ensureDirectories (c : Config) : Act Disk Unit := do
  Disk.makeDirs c.directory
  Disk.makeDirs c.tweaks
  Disk.makeDirs c.snapshots
  Disk.makeDirs c.logs

/-- Reads a configuration from a file, or from the one in the home directory.  Without a
file everything has its default. -/
def load (file : Option Path) : Act Disk Config := do
  let home ← Act.view Disk.home
  let file := file.getD (defaultFile home)
  if ← Disk.present file then
    Act.result (ofDatum home (← Disk.readJson file))
  else return default home

/-- Writes a configuration to a file, or to the one in its directory. -/
def save (c : Config) (file : Option Path) : Act Disk Unit := do
  let file := file.getD (c.directory.child "config.json")
  Disk.makeDirs file.parent
  Disk.writeJson file c.toDatum

end Config
end TweakEngine
