/-
# Start types and run states of services

Both come from the platform as a word or as a number; what is not recognised is
`unknown`.
-/

import TweakEngine.Label.Read

namespace TweakEngine

/-- When a service starts. -/
inductive StartupType
  | automatic | automaticDelayed | manual | disabled | boot | system | unknown
  deriving DecidableEq, Repr

namespace StartupType

instance : Labelled StartupType where
  vocabulary := "ServiceStartupType"
  members := [automatic, automaticDelayed, manual, disabled, boot, system, unknown]
  label
    | automatic => "Automatic" | automaticDelayed => "AutomaticDelayedStart" | manual => "Manual"
    | disabled => "Disabled" | boot => "Boot" | system => "System" | unknown => "Unknown"
  constant
    | automatic => "AUTOMATIC" | automaticDelayed => "AUTOMATIC_DELAYED" | manual => "MANUAL"
    | disabled => "DISABLED" | boot => "BOOT" | system => "SYSTEM" | unknown => "UNKNOWN"
  aliases :=
    [("auto", automatic), ("automaticdelayed", automaticDelayed),
     ("delayedauto", automaticDelayed), ("demand", manual)]

/-- The word that is written for a start type. -/
def label (t : StartupType) : String := Labelled.label t

/-- The start type with a number. -/
def ofNumber (n : Int) : StartupType :=
  ([(0, boot), (1, system), (2, automatic), (3, manual), (4, disabled)].lookup n).getD unknown

/-- The start type that a value names. -/
def ofDatum : Datum → StartupType
  | .null => unknown
  | .bool b => ofNumber (if b then 1 else 0)
  | .int n => ofNumber n
  | d => (Labelled.parse? d.display).getD unknown

end StartupType

/-- What a service is doing. -/
inductive RunState
  | running | stopped | paused | startPending | stopPending | continuePending | pausePending
  | unknown
  deriving DecidableEq, Repr

namespace RunState

instance : Labelled RunState where
  vocabulary := "ServiceRunState"
  members := [running, stopped, paused, startPending, stopPending, continuePending, pausePending,
    unknown]
  label
    | running => "Running" | stopped => "Stopped" | paused => "Paused"
    | startPending => "StartPending" | stopPending => "StopPending"
    | continuePending => "ContinuePending" | pausePending => "PausePending"
    | unknown => "Unknown"
  constant
    | running => "RUNNING" | stopped => "STOPPED" | paused => "PAUSED"
    | startPending => "START_PENDING" | stopPending => "STOP_PENDING"
    | continuePending => "CONTINUE_PENDING" | pausePending => "PAUSE_PENDING"
    | unknown => "UNKNOWN"

/-- The word that is written for a run state. -/
def label (s : RunState) : String := Labelled.label s

/-- The run state with a number. -/
def ofNumber (n : Int) : RunState :=
  ([(1, stopped), (2, startPending), (3, stopPending), (4, running), (5, continuePending),
    (6, pausePending), (7, paused)].lookup n).getD unknown

/-- The run state that a value names. -/
def ofDatum : Datum → RunState
  | .null => unknown
  | .bool b => ofNumber (if b then 1 else 0)
  | .int n => ofNumber n
  | d => (Labelled.parse? d.display).getD unknown

end RunState
end TweakEngine
