/-
# Sessions

A session is a host together with what is remembered of it: the captures and the
open snapshot store, if there is one.
-/

import TweakEngine.Snapshot.Store

namespace TweakEngine

/-- A host with what is remembered of it. -/
structure Session (μ : Type) where
  host : Host μ
  memory : Memory := {}
  store : Option Snapshot.Store := none

/-- An action in a session. -/
abbrev Work (μ : Type) := Act (Session μ)

namespace Session

variable {μ : Type}

/-- The host of a session. -/
def hostPart : Part (Session μ) (Host μ) := ⟨Session.host, fun h s => { s with host := h }⟩

/-- The memory of a session. -/
def memoryPart : Part (Session μ) Memory := ⟨Session.memory, fun m s => { s with memory := m }⟩

/-- The captures in the registry. -/
def registryPart : Part (Session μ) (Captures RegistryCapture) :=
  memoryPart.inside Memory.registryPart

/-- The captures of services. -/
def servicesPart : Part (Session μ) (Captures ServiceCapture) :=
  memoryPart.inside Memory.servicesPart

/-- The captures of files. -/
def filesPart : Part (Session μ) (Captures FileCapture) := memoryPart.inside Memory.filesPart

/-- The capture at a place. -/
def captured? {α : Type} (part : Part (Session μ) (Captures α)) (slot : Slot) :
    Work μ (Option α) := part.lift (Act.view (Captures.at? slot))

/-- Captures something unless there is a capture; tells whether it did. -/
def capture {α : Type} (part : Part (Session μ) (Captures α)) (slot : Slot) (a : α) : Work μ Bool :=
  part.lift (Act.of fun c =>
    let (c, kept) := c.keep slot a
    (.ok kept, c))

/-- Drops the capture at a place. -/
def release {α : Type} (part : Part (Session μ) (Captures α)) (slot : Slot) : Work μ Unit :=
  part.lift (Act.change (Assoc.erase slot))

/-- An action on the host alone. -/
def onHost {α : Type} (a : Call μ α) : Work μ α := hostPart.lift a

/-- Says something. -/
def say (level : Level) (speaker text : String) : Work μ Unit :=
  onHost (Host.say level speaker text)

/-- The store of a session, if it has one. -/
def openStore? : Work μ (Option Snapshot.Store) := Act.view Session.store

/-- Replaces the index of the open store. -/
def putStore (s : Snapshot.Store) : Work μ Unit := Act.change fun x => { x with store := some s }

end Session

namespace Snapshot

variable {μ : Type}

open Session

/-- Writes the captures of a tweak; without any capture nothing is written. -/
def save (store : Store) (t : Tweak) : Work μ (Option Path) := do
  let now ← onHost Host.now
  let (snapshot, count) ← Act.view fun s => Store.snapshotOf t s.memory now
  if count = 0 then
    say .debug speaker ("Nothing captured for " ++ t.id ++ ", no snapshot written")
    return none
  let file := store.fileFor t.id
  onHost (Host.onDisk (Disk.writeJson file snapshot))
  let entry : Entry :=
    { tweakId := .text t.id
      tweakName := t.name
      timestamp := .text now.text
      filePath := .text file.text
      operationCount := .int count }
  let store := { store with index := Assoc.put t.key entry store.index }
  putStore store
  onHost store.saveIndex
  say .info speaker
    ("Saved snapshot for " ++ t.id ++ " (" ++ toString count ++ " operations) to " ++ file.text)
  return some file

/-- Reads the captures of a tweak; what is captured already stays.  Tells whether there
was a snapshot. -/
def load (store : Store) (t : Tweak) : Work μ Bool := do
  match Assoc.get? t.key store.index with
  | none =>
    say .debug speaker ("No snapshot for " ++ t.id)
    return false
  | some entry =>
    let file ← Act.result (Path.ofDatum entry.filePath)
    if !(← onHost (Host.onDisk (Disk.present file))) then
      say .warning speaker ("Snapshot file not found: " ++ file.text)
      return false
    let snapshot ← onHost (Host.onDisk (Disk.readJson file))
    memoryPart.lift (Store.restoreAll t snapshot)
    say .debug speaker ("Loaded snapshot for " ++ t.id)
    return true

/-- Removes the snapshot of a tweak.  Tells whether there was one. -/
def delete (store : Store) (tweakId : String) : Work μ Bool := do
  let key := Text.fold tweakId
  match Assoc.get? key store.index with
  | none => return false
  | some entry =>
    let store := { store with index := Assoc.erase key store.index }
    putStore store
    let file ← Act.result (Path.ofDatum entry.filePath)
    if ← onHost (Host.onDisk (Disk.present file)) then
      onHost (Host.onDisk (Disk.unlink file))
    onHost store.saveIndex
    say .info speaker ("Deleted snapshot for " ++ tweakId)
    return true

end Snapshot
end TweakEngine
