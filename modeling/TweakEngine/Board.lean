/-
# The board

The board remembers what a scan found, for a limited time, and which changes are
waiting to be carried out.  At most one change waits for each tweak.  A scan that fails
leaves the board as it was.
-/

import TweakEngine.Catalog.Library
import TweakEngine.Detection.Detector

namespace TweakEngine

/-- A change that waits to be carried out. -/
structure Change where
  tweakId : String
  tweakName : Datum
  action : Action
  addedAt : Moment

/-- What a scan found, and what is waiting. -/
structure Board where
  /-- How many microseconds a scan stays fresh. -/
  ttl : Int
  /-- The statuses under the folded identifiers. -/
  statuses : Assoc String Status := []
  lastScan : Option Moment := none
  pending : List Change := []

/-- A tweak with its status and the action that waits for it. -/
structure Item where
  tweak : Tweak
  status : Status
  pending : Option Action

/-- How tweaks are looked at, one by one or all together. -/
structure Watcher (μ : Type) where
  evaluate : Tweak → Call μ Status
  evaluateBatch : List Tweak → Call μ (Assoc String Status)

/-- A detector as a watcher. -/
def Detector.watcher {μ : Type} (d : Detector μ) : Watcher μ := ⟨d.evaluate, d.evaluateBatch⟩

/-- A board with the shelf that its tweaks stand on. -/
structure Desk (μ : Type) where
  board : Board
  shelf : Shelf μ

namespace Desk

variable {μ : Type}

/-- The board of a desk. -/
def boardPart : Part (Desk μ) Board := ⟨Desk.board, fun b d => { d with board := b }⟩

/-- The shelf of a desk. -/
def shelfPart : Part (Desk μ) (Shelf μ) := ⟨Desk.shelf, fun s d => { d with shelf := s }⟩

/-- The host of a desk. -/
def hostPart : Part (Desk μ) (Host μ) := shelfPart.inside Shelf.hostPart

end Desk

namespace Board

/-- The most days that a length of time can have. -/
def maxDays : Int := 999999999

/-- A length of time, unless it has too many days. -/
def inRange (micros : Int) : Except Failure Int :=
  let days := micros.fdiv Moment.day
  if -maxDays ≤ days ∧ days ≤ maxDays then .ok micros
  else .error (.overflow
    ("days=" ++ Decimal.intText days ++ "; must have magnitude <= " ++ Decimal.intText maxDays))

/-- A number of seconds in microseconds. -/
def durationOf (d : Datum) : Except Failure Int :=
  match d with
  | .bool b => .ok (if b then Moment.second else 0)
  | .int n => inRange (n * Moment.second)
  | .float x =>
    if (Decimal.truncate? x).isSome then inRange (Moment.microsOf x)
    else do
      let n ← d.toInt
      return n
  | d => .error (.mistyped ("unsupported type for timedelta seconds component: " ++ d.form))

/-- A board on which a scan stays fresh for a number of seconds. -/
def withTtl (seconds : Datum) : Except Failure Board := do return { ttl := ← durationOf seconds }

/-- Whether the last scan is fresh. -/
def isFresh (b : Board) (now : Moment) : Bool :=
  match b.lastScan with
  | some scanned => !b.statuses.isEmpty && now.micros - scanned.micros < b.ttl
  | none => false

/-- Forgets what a scan found. -/
def invalidate (b : Board) : Board := { b with statuses := [], lastScan := none }

/-- Whether a change is about a tweak, by its folded identifier. -/
def about (key : String) (c : Change) : Bool := Text.fold c.tweakId == key

/-- Takes the change of a tweak off the board. -/
def unqueue (key : String) (b : Board) : Board :=
  { b with pending := b.pending.filter fun c => !about key c }

/-- Puts a change on the board, in place of an earlier one for its tweak. -/
def queue (c : Change) (b : Board) : Board :=
  let b := b.unqueue (Text.fold c.tweakId)
  { b with pending := b.pending ++ [c] }

/-- Takes the changes with an action off the board, or all of them. -/
def take (action : Option Action) (b : Board) : List Change × Board :=
  let chosen (c : Change) : Bool := action.isNone || action == some c.action
  (b.pending.filter chosen, { b with pending := b.pending.filter fun c => !chosen c })

/-- The changes that may return to the board: those whose tweak has none there. -/
def returning (changes : List Change) (b : Board) : List Change :=
  changes.filter fun c => !b.pending.any (about (Text.fold c.tweakId))

/-- The action that waits for a tweak. -/
def waiting? (key : String) (b : Board) : Option Action :=
  (b.pending.reverse.find? (about key)).map Change.action

/-- The action that takes a tweak to the state that is wanted, if it is in the other one. -/
def actionFor (isApplied wantsApplied : Bool) : Option Action :=
  if wantsApplied && !isApplied then some .apply
  else if !wantsApplied && isApplied then some .revert
  else none

end Board

namespace Desk

variable {μ : Type}

/-- The speaker of the board. -/
def speaker : String := "tweakd.core.state"

/-- An action on the host alone. -/
def onHost {α : Type} (a : Call μ α) : Act (Desk μ) α := hostPart.lift a

/-- An action on the catalog. -/
def onShelf {α : Type} (a : Act (Shelf μ) α) : Act (Desk μ) α := shelfPart.lift a

/-- Changes the board. -/
def changeBoard (f : Board → Board) : Act (Desk μ) Unit := boardPart.lift (Act.change f)

/-- Looks at all tweaks again.  What goes wrong is only said. -/
def refresh (w : Watcher μ) : Act (Desk μ) Unit := do
  let scan : Act (Desk μ) (Assoc String Status) := do
    let tweaks ← onShelf Catalog.tweaks
    onHost (w.evaluateBatch tweaks)
  match ← scan.attempt with
  | .error f =>
    onHost (Host.say .error speaker ("Failed to refresh system status: " ++ f.message))
  | .ok statuses =>
    let fresh := Assoc.ofList (statuses.map fun e => (Text.fold e.1, e.2))
    let now ← onHost Host.now
    changeBoard fun b => { b with statuses := fresh, lastScan := some now }
    onHost (Host.say .info speaker ("Refreshed status of " ++ toString fresh.length ++ " tweaks"))

/-- Whether the last scan is fresh. -/
def isFresh : Act (Desk μ) Bool := do
  let now ← onHost Host.now
  boardPart.lift (Act.view fun b => b.isFresh now)

/-- All tweaks with their statuses; they are looked at first unless the last scan is fresh. -/
def items (w : Watcher μ) : Act (Desk μ) (List Item) := do
  if !(← isFresh) then refresh w
  let tweaks ← onShelf Catalog.tweaks
  let board ← Act.view Desk.board
  let now ← onHost Host.now
  return tweaks.map fun t =>
    { tweak := t
      status := (Assoc.get? t.key board.statuses).getD (Status.notScanned t.id now)
      pending := board.waiting? t.key }

/-- The status of one tweak; it is looked at unless it was found by a fresh scan. -/
def statusOf (w : Watcher μ) (tweakId : String) : Act (Desk μ) Status := do
  let known ← boardPart.lift (Act.view fun b => Assoc.get? (Text.fold tweakId) b.statuses)
  match known, ← isFresh with
  | some status, true => return status
  | _, _ =>
    match ← onShelf (Catalog.find? tweakId) with
    | none => return { tweakId, message := "Tweak not found", lastChecked := ← onHost Host.now }
    | some t =>
      let status ← onHost (w.evaluate t)
      changeBoard fun b => { b with statuses := Assoc.put (Text.fold tweakId) status b.statuses }
      return status

/-- Lets an action wait for a tweak.  Tells whether there is such a tweak. -/
def queue (tweakId : String) (action : Action) : Act (Desk μ) Bool := do
  match ← onShelf (Catalog.find? tweakId) with
  | none =>
    onHost (Host.say .warning speaker
      ("Cannot queue " ++ action.label ++ " for unknown tweak " ++ tweakId))
    return false
  | some t =>
    let now ← onHost Host.now
    changeBoard (Board.queue ⟨t.id, t.name, action, now⟩)
    return true

/-- Takes the change of a tweak off the board.  Tells whether there was one. -/
def unqueue (tweakId : String) : Act (Desk μ) Bool := do
  let key := Text.fold tweakId
  let waiting ← boardPart.lift (Act.view fun b => (b.waiting? key).isSome)
  changeBoard (Board.unqueue key)
  return waiting

/-- Takes all changes off the board. -/
def clear : Act (Desk μ) Unit := changeBoard fun b => { b with pending := [] }

/-- Takes the changes with an action off the board, or all of them, and gives them. -/
def take (action : Option Action) : Act (Desk μ) (List Change) :=
  boardPart.lift (Act.of fun b => let (taken, b) := b.take action; (.ok taken, b))

/-- Puts changes that did not run back in front, unless their tweaks wait again. -/
def putBack (changes : List Change) : Act (Desk μ) Unit := do
  let returned ← boardPart.lift (Act.view fun b => b.returning changes)
  changeBoard fun b => { b with pending := returned ++ b.pending }
  if !returned.isEmpty then
    onHost (Host.say .info speaker
      ("Kept " ++ toString returned.length ++ " pending changes that did not run"))

/-- The tweaks of changes; changes of unknown tweaks are dropped. -/
def tweaksOf : List Change → Act (Desk μ) (List Tweak)
  | [] => return []
  | c :: cs => do
    match ← onShelf (Catalog.find? c.tweakId) with
    | none =>
      onHost (Host.say .warning speaker
        ("Pending change for unknown tweak " ++ c.tweakId ++ " dropped"))
      tweaksOf cs
    | some t => return t :: (← tweaksOf cs)

end Desk
end TweakEngine
