/-
# The snapshot store

A snapshot is a file with the captures of one tweak, so that the tweak can be
reverted after a restart.  An index file names the snapshots; it is read once when the
store is opened and written after every change.  Identifiers are found ignoring case.
-/

import TweakEngine.Datum.Items
import TweakEngine.Disk.Json
import TweakEngine.Execution.Memory
import TweakEngine.System.Host

namespace TweakEngine
namespace Snapshot

/-- The entry of a snapshot in the index, as found in the file. -/
structure Entry where
  tweakId : Datum
  tweakName : Datum
  timestamp : Datum
  filePath : Datum
  operationCount : Datum := .int 0

namespace Entry

/-- The JSON form of an entry. -/
def toDatum (e : Entry) : Datum := .object
  [("tweak_id", e.tweakId), ("tweak_name", e.tweakName), ("timestamp", e.timestamp),
   ("file_path", e.filePath), ("operation_count", e.operationCount)]

/-- The fields that an entry must have. -/
def required : List String := ["tweak_id", "tweak_name", "timestamp", "file_path"]

/-- Words in quotes, the last one after an "and". -/
def enumerate (words : List String) : String :=
  match words with
  | [] => ""
  | [a] => Text.quoted a
  | [a, b] => Text.quoted a ++ " and " ++ Text.quoted b
  | words =>
    Text.join ", " (words.dropLast.map Text.quoted) ++ ", and " ++ Text.quoted (words.getLastD "")

/-- An entry out of its JSON form, which has all required fields and no unknown one. -/
def ofDatum : Datum → Except Failure Entry
  | .object fields =>
    match (Assoc.keys fields).find? fun k => !(required ++ ["operation_count"]).contains k with
    | some k => .error (.mistyped
        ("SnapshotMetadata.__init__() got an unexpected keyword argument " ++ Text.quoted k))
    | none =>
      match Assoc.get? "tweak_id" fields, Assoc.get? "tweak_name" fields,
          Assoc.get? "timestamp" fields, Assoc.get? "file_path" fields with
      | some tweakId, some tweakName, some timestamp, some filePath => .ok
          { tweakId, tweakName, timestamp, filePath
            operationCount := (Assoc.get? "operation_count" fields).getD (.int 0) }
      | _, _, _, _ =>
        let missing := required.filter fun k => !Assoc.has k fields
        .error (.mistyped
          ("SnapshotMetadata.__init__() missing " ++ toString missing.length ++
            " required positional argument" ++ (if missing.length = 1 then "" else "s") ++ ": " ++
            enumerate missing))
  | d => .error (.mistyped
      ("src.core.snapshot.SnapshotMetadata() argument after ** must be a mapping, not " ++ d.form))

end Entry

/-- An open store: its directory and its index. -/
structure Store where
  directory : Path
  index : Assoc String Entry := []

/-- The speaker of the store. -/
def speaker : String := "tweakd.core.snapshot"

/-- The version that is written into snapshots. -/
def formatVersion : Int := 1

namespace Store

/-- The index file. -/
def indexFile (s : Store) : Path := s.directory.child "snapshot_index.json"

/-- The longest name that a snapshot file takes from an identifier. -/
def maxName : Nat := 80

/-- The file of a snapshot: the letters, digits, hyphens and underscores of the identifier. -/
def fileFor (s : Store) (tweakId : String) : Path :=
  let isSafe (c : Char) : Bool := Text.isAlphaNumeric c || c == '-' || c == '_'
  let safe := (tweakId.toList.filter isSafe).take maxName
  let name := if safe = [] then "tweak" else String.ofList safe
  s.directory.child (name ++ ".json")

/-- The index out of its JSON form. -/
def readIndex (d : Datum) : Except Failure (Assoc String Entry) :=
  match d with
  | .object fields => do
    return Assoc.ofList (← fields.mapM fun e => do return (e.1, ← Entry.ofDatum e.2))
  | d => .error (Failure.lacks d "items")

/-- The JSON form of the index. -/
def indexDatum (s : Store) : Datum := .object (s.index.map fun e => (e.1, e.2.toDatum))

variable {μ : Type}

/-- Failures of the index that leave the store empty. -/
def isIndexFault (f : Failure) : Bool := f.isSystem || f.isValue || (f matches .mistyped _)

/-- Opens the store in a directory, which is made if it is missing. -/
def openAt (directory : Path) : Call μ Store := do
  Host.onDisk (Disk.makeDirs directory)
  let store : Store := { directory }
  if !(← Host.onDisk (Disk.present store.indexFile)) then return store
  let reading : Call μ (Assoc String Entry) := do
    Act.result (readIndex (← Host.onDisk (Disk.readJson store.indexFile)))
  match ← reading.rescue isIndexFault with
  | .ok index => return { store with index }
  | .error f =>
    Host.say .warning speaker ("Failed to load snapshot index: " ++ f.message)
    return store

/-- Writes the index. -/
def saveIndex (s : Store) : Call μ Unit :=
  Host.onDisk (Disk.writeJson s.indexFile s.indexDatum)

/-- The JSON form of a capture in the registry. -/
def registryDatum (c : RegistryCapture) : Datum := .object
  [("existed_before", .bool c.existed),
   ("key_existed_before", .bool c.keyExisted),
   ("original_value", (c.value.map RegistryValue.toJson).getD .null),
   ("original_kind", .ofLabel? (c.value.map RegistryValue.kind))]

/-- The JSON form of a capture of a service. -/
def serviceDatum (c : ServiceCapture) : Datum := .object
  [("original_startup_type", .text c.startup.label), ("original_state", .ofLabel? c.state)]

/-- The JSON form of a capture of a file. -/
def fileDatum (c : FileCapture) : Datum := .object
  [("existed_before", .bool c.existed), ("original_content", c.content)]

/-- Captures by position in JSON form. -/
def indexedDatum {α : Type} (f : α → Datum) (cs : List (Nat × α)) : Datum :=
  .object (cs.map fun e => (toString e.1, f e.2))

/-- The captures of a tweak in JSON form, and how many there are. -/
def snapshotOf (t : Tweak) (m : Memory) (now : Moment) : Datum × Nat :=
  let registry := m.registry.indexed t.id .apply t.operations.registry.length
  let services := m.services.indexed t.id .apply t.operations.services.length
  let files := m.files.indexed t.id .apply t.operations.files.length
  (.object
    [("format_version", .int formatVersion),
     ("tweak_id", .text t.id),
     ("timestamp", .text now.text),
     ("registry", indexedDatum registryDatum registry),
     ("services", indexedDatum serviceDatum services),
     ("files", indexedDatum fileDatum files)],
    registry.length + services.length + files.length)

/-- The position that a key of a snapshot names. -/
def position? (key : String) (count : Nat) : Option Nat :=
  match Decimal.readInt key with
  | .ok n => if 0 ≤ n ∧ n < count then some n.toNat else none
  | .error _ => none

/-- The field of an object, or a default; other values have no fields. -/
def fieldOf (d : Datum) (key : String) (default : Datum := .null) : Except Failure Datum :=
  match d with
  | .object fields => .ok ((Assoc.get? key fields).getD default)
  | d => .error (Failure.lacks d "get")

/-- The captures of one sort in a snapshot, by their keys. -/
def part (snapshot : Datum) (name : String) : Except Failure (List (String × Datum)) := do
  match ← fieldOf snapshot name (.object []) with
  | .object fields => return fields
  | d => throw (Failure.lacks d "items")

/-- A capture in the registry out of its JSON form. -/
def registryCapture (op : RegistryOperation) (d : Datum) : Except Failure RegistryCapture := do
  let raw ← fieldOf d "original_value"
  let value ←
    if raw.isNull then pure none
    else do
      let word ← fieldOf d "original_kind"
      let kind ← Labelled.ofDatum (if word.truthy then word else .text op.kind.label)
      RegistryValue.coerce raw kind
  let existed ← fieldOf d "existed_before"
  let keyExisted ← fieldOf d "key_existed_before" (.bool true)
  return RegistryCapture.of existed.truthy value keyExisted.truthy

/-- A capture of a service out of its JSON form. -/
def serviceCapture (d : Datum) : Except Failure ServiceCapture := do
  let startup ← fieldOf d "original_startup_type"
  let state ← fieldOf d "original_state"
  return ⟨StartupType.ofDatum startup, some (RunState.ofDatum state)⟩

/-- A capture of a file out of its JSON form. -/
def fileCapture (d : Datum) : Except Failure FileCapture := do
  let existed ← fieldOf d "existed_before"
  let content ← fieldOf d "original_content"
  return ⟨existed.truthy, content⟩

/-- Puts the captures of one sort into their places, one after the other. -/
def restore {ω α : Type} (tweakId : String) (ops : List ω) (read : ω → Datum → Except Failure α) :
    List (String × Datum) → Act (Captures α) Unit
  | [] => return
  | (key, d) :: rest => do
    match position? key ops.length with
    | none => pure ()
    | some i => match ops[i]? with
      | none => pure ()
      | some op => do
        let capture ← Act.result (read op d)
        Act.change fun c => (c.keep ⟨tweakId, .apply, i⟩ capture).1
    restore tweakId ops read rest

/-- Puts the captures of a snapshot into a memory. -/
def restoreAll (t : Tweak) (snapshot : Datum) : Act Memory Unit := do
  let registry ← Act.result (part snapshot "registry")
  Memory.registryPart.lift (restore t.id t.operations.registry registryCapture registry)
  let services ← Act.result (part snapshot "services")
  Memory.servicesPart.lift (restore t.id t.operations.services (fun _ => serviceCapture) services)
  let files ← Act.result (part snapshot "files")
  Memory.filesPart.lift (restore t.id t.operations.files (fun _ => fileCapture) files)

/-- Whether there is a snapshot of a tweak. -/
def has (s : Store) (tweakId : String) : Bool := Assoc.has (Text.fold tweakId) s.index

/-- Entries from the newest to the oldest; only texts or only numbers can be ordered. -/
def newestFirst (entries : List Entry) : Except Failure (List Entry) := do
  let stamps := entries.map Entry.timestamp
  discard (Datum.sorted stamps)
  return entries.mergeSort fun a b =>
    match a.timestamp, b.timestamp with
    | .text x, .text y => !Text.before x y
    | x, y => Datum.numberLe y x

/-- The snapshots of a store, the newest first. -/
def list (s : Store) : Except Failure (List Entry) := newestFirst s.index.values

end Store
end Snapshot
end TweakEngine
