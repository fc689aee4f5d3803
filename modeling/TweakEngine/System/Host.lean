/-
# The host of a run

A host is the machine that is worked on, the files around it, a clock, and the trail of
everything that was said and done, newest first.  The probe and the mutator of a
machine are records of actions on its host.
-/

import TweakEngine.System.Process
import TweakEngine.Disk.Tree
import TweakEngine.Moment

namespace TweakEngine

/-- How much a message matters. -/
structure Level where
  number : Int
  deriving DecidableEq, Repr

namespace Level

def debug : Level := ⟨10⟩
def info : Level := ⟨20⟩
def warning : Level := ⟨30⟩
def error : Level := ⟨40⟩
def critical : Level := ⟨50⟩

/-- The name of a level; levels between the usual ones have only their number. -/
def name (l : Level) : String :=
  (([(debug, "DEBUG"), (info, "INFO"), (warning, "WARNING"), (error, "ERROR"),
    (critical, "CRITICAL"), (⟨0⟩, "NOTSET")] : List (Level × String)).lookup l).getD
    ("Level " ++ Decimal.intText l.number)

end Level

/-- A message: how much it matters, who says it and when, and the failure it is about. -/
structure Message where
  level : Level
  speaker : String
  text : String
  failure : Option Failure := none
  time : Moment := ⟨0⟩

/-- How far a batch has come. -/
structure Progress where
  total : Int
  completed : Int
  name : Datum := .text ""
  phase : String := ""

/-- The part of a batch that is done, in percent. -/
def Progress.percent (p : Progress) : Float :=
  if p.total ≤ 0 then 100.0
  else Decimal.ofInt p.completed / Decimal.ofInt p.total * 100.0

/-- Something that was said or done. -/
inductive Event
  | said (m : Message)
  | planned (text : String)
  | wrote (w : Write)
  /-- A process was run with a time limit. -/
  | ran (command : List Datum) (timeout : Datum)
  | progressed (p : Progress)
  | printed (text : String)
  | complained (text : String)
  /-- An answer was awaited. -/
  | asked

/-- A machine with the files around it. -/
structure Host (μ : Type) where
  machine : μ
  disk : Disk := {}
  clock : Moment := ⟨0⟩
  /-- What the next processes will answer. -/
  answers : List Answer := []
  trail : List Event := []

/-- An action on a host. -/
abbrev Call (μ : Type) := Act (Host μ)

namespace Host

variable {μ : Type}

/-- The machine of a host. -/
def machinePart : Part (Host μ) μ := ⟨Host.machine, fun m h => { h with machine := m }⟩

/-- The files of a host. -/
def diskPart : Part (Host μ) Disk := ⟨Host.disk, fun d h => { h with disk := d }⟩

/-- Adds an event to the trail. -/
def record (e : Event) : Call μ Unit := Act.change fun h => { h with trail := e :: h.trail }

/-- Says something now. -/
def report (m : Message) : Call μ Unit :=
  Act.change fun h => { h with trail := .said { m with time := h.clock } :: h.trail }

/-- Says something that is about no failure. -/
def say (level : Level) (speaker text : String) : Call μ Unit := report { level, speaker, text }

/-- Runs a process.  When there are no answers left it ends well. -/
def run (command : List Datum) (timeout : Datum) : Call μ Answer := Act.of fun h =>
  (.ok (h.answers.headD .quiet),
    { h with answers := h.answers.tail, trail := .ran command timeout :: h.trail })

/-- The present moment. -/
def now : Call μ Moment := Act.view Host.clock

/-- Lets time pass. -/
def wait (micros : Int) : Call μ Unit :=
  Act.change fun h => { h with clock := ⟨h.clock.micros + micros⟩ }

/-- The milliseconds since a moment. -/
def millisSince (start : Moment) : Call μ Float := do
  return Moment.millisBetween start (← now)

/-- An action on the machine alone. -/
def onMachine {α : Type} (a : Act μ α) : Call μ α := machinePart.lift a

/-- An action on the files alone. -/
def onDisk {α : Type} (a : Act Disk α) : Call μ α := diskPart.lift a

/-- The writes on the trail, oldest first. -/
def writes (h : Host μ) : List Write :=
  (h.trail.filterMap fun e => match e with
    | .wrote w => some w
    | _ => none).reverse

/-- The plans on the trail, oldest first. -/
def plans (h : Host μ) : List String :=
  (h.trail.filterMap fun e => match e with
    | .planned s => some s
    | _ => none).reverse

end Host

/-- Reading a system. -/
structure Probe (μ : Type) where
  readValue : Hive → Datum → Datum → Call μ Reading
  keyExists : Hive → Datum → Call μ Bool
  queryService : Datum → Call μ ServiceSnapshot
  pathExists : Datum → Call μ Bool
  /-- Runs a script that changes nothing, with a time limit. -/
  runDiagnostic : Datum → Datum → Call μ ScriptOutcome

/-- Changing a system, and the readings that are needed for it. -/
structure Mutator (μ : Type) where
  readValue : Hive → Datum → Datum → Call μ Reading
  keyExists : Hive → Datum → Call μ Bool
  queryService : Datum → Call μ ServiceSnapshot
  pathExists : Datum → Call μ Bool
  /-- The text of a small file, or null when it cannot be read. -/
  readText : Datum → Call μ Datum
  write : (w : Write) → Call μ w.Reply

end TweakEngine
