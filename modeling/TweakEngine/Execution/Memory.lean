/-
# Captures

Before an operation changes something it captures what was there.  A capture is kept
under the place of its operation and is written once: while there is one, further
captures change nothing (`Captures.keep`).  It is dropped when what it
holds has been restored.
-/

import TweakEngine.Act
import TweakEngine.Tweak

namespace TweakEngine

/-- Which operations of a tweak are meant: those that apply it or those that undo it. -/
inductive Side
  | apply | undo
  deriving DecidableEq, Repr

/-- The place of an operation: its tweak, its side, and its position among the
operations of its sort. -/
structure Slot where
  tweak : String
  side : Side
  index : Nat
  deriving DecidableEq, Repr

/-- What was in the registry before an operation. -/
structure RegistryCapture where
  existed : Bool
  keyExisted : Bool
  value : Option RegistryValue
  deriving DecidableEq, Repr

/-- What a value was before an operation; the content of a missing value is dropped. -/
def RegistryCapture.of (existed : Bool) (value : Option RegistryValue) (keyExisted : Bool) :
    RegistryCapture :=
  ⟨existed, keyExisted, if existed then value else none⟩

/-- What a service was before an operation. -/
structure ServiceCapture where
  startup : StartupType
  state : Option RunState
  deriving DecidableEq, Repr

/-- What a file was before an operation. -/
structure FileCapture where
  existed : Bool
  content : Datum
  deriving Repr

/-- Captures of one sort. -/
abbrev Captures (α : Type) := Assoc Slot α

namespace Captures

variable {α : Type}

/-- The capture at a place. -/
def at? (slot : Slot) (c : Captures α) : Option α := Assoc.get? slot c

/-- Captures something unless there is a capture; tells whether it did. -/
def keep (slot : Slot) (a : α) (c : Captures α) : Captures α × Bool :=
  match Assoc.get? slot c with
  | some _ => (c, false)
  | none => (Assoc.put slot a c, true)

/-- Whether the first operations of a side are all captured. -/
def covers (tweak : String) (side : Side) (count : Nat) (c : Captures α) : Bool :=
  (List.range count).all fun i => Assoc.has ⟨tweak, side, i⟩ c

/-- The captures of the first operations of a side, by position. -/
def indexed (tweak : String) (side : Side) (count : Nat) (c : Captures α) : List (Nat × α) :=
  (List.range count).filterMap fun i => (Assoc.get? ⟨tweak, side, i⟩ c).map (i, ·)

end Captures

/-- All captures. -/
structure Memory where
  registry : Captures RegistryCapture := []
  services : Captures ServiceCapture := []
  files : Captures FileCapture := []

namespace Memory

/-- The captures in the registry. -/
def registryPart : Part Memory (Captures RegistryCapture) :=
  ⟨Memory.registry, fun c m => { m with registry := c }⟩

/-- The captures of services. -/
def servicesPart : Part Memory (Captures ServiceCapture) :=
  ⟨Memory.services, fun c m => { m with services := c }⟩

/-- The captures of files. -/
def filesPart : Part Memory (Captures FileCapture) :=
  ⟨Memory.files, fun c m => { m with files := c }⟩

/-- Whether everything that a tweak's operations would capture is captured. -/
def covers (m : Memory) (t : Tweak) : Bool :=
  m.registry.covers t.id .apply t.operations.registry.length &&
    m.services.covers t.id .apply t.operations.services.length &&
    m.files.covers t.id .apply t.operations.files.length

end Memory
end TweakEngine
