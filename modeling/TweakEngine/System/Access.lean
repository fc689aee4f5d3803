/-
# Reading and changing a system

What can be asked of a system and what can be done to it.  "Not found" and "access
denied" are answers; only a missing platform is a failure.  Each `Write` has a reply of
its own type, and `Write.plan` says in words what the write would do.
-/

import TweakEngine.ServiceState
import TweakEngine.Registry.Coerce

namespace TweakEngine

/-- The answer to reading a registry value. -/
inductive Reading
  | missingKey
  /-- The key exists and cannot be opened. -/
  | denied (text : String)
  | missingValue
  /-- The value; a stored value without content reads as none. -/
  | found (value : Option RegistryValue)
  deriving DecidableEq, Repr

namespace Reading

/-- Whether the key was found. -/
def keyExists : Reading → Bool
  | missingKey => false
  | _ => true

/-- Whether the value was found. -/
def valueExists : Reading → Bool
  | found _ => true
  | _ => false

/-- The value, if there is one. -/
def value? : Reading → Option RegistryValue
  | found v => v
  | _ => none

end Reading

/-- What a service is doing and when it starts. -/
structure ServiceSnapshot where
  name : Datum
  found : Bool
  state : RunState := .unknown
  startup : StartupType := .unknown

/-- The result of running a script; a script that was stopped has no exit code. -/
structure ScriptOutcome where
  exitCode : Option Int
  stdout : Option String := some ""
  stderr : Option String := some ""
  timedOut : Bool := false
  outputCaptured : Bool := true
  deriving DecidableEq, Repr

/-- Whether a script ran to its end and succeeded. -/
def ScriptOutcome.success (o : ScriptOutcome) : Bool := !o.timedOut && o.exitCode == some 0

/-- A change of a system. -/
inductive Write
  | setValue (hive : Hive) (path name : Datum) (value : RegistryValue)
  | deleteValue (hive : Hive) (path name : Datum)
  | createKey (hive : Hive) (path : Datum)
  | deleteKey (hive : Hive) (path : Datum)
  | stopService (service : Datum)
  | startService (service : Datum)
  | setStartup (service : Datum) (startup : StartupType)
  | runScript (script timeout : Datum) (elevated : Bool)
  | writeFile (path content : Datum) (createDirectories : Bool)
  | createDirectory (path : Datum)
  | deletePath (path : Datum)
  | movePath (source target : Datum)
  | copyPath (source target : Datum)

namespace Write

/-- The type of the reply to a write: whether something was removed or made, the outcome
of a script, or nothing. -/
@[reducible] def Reply : Write → Type
  | deleteValue .. | createKey .. | deleteKey .. => Bool
  | runScript .. => ScriptOutcome
  | _ => Unit

/-- The number of items or characters of a value that has some. -/
def size (d : Datum) : Except Failure Nat :=
  match d with
  | .text s => .ok s.length
  | .list items | .tuple items => .ok items.length
  | .object fields => .ok fields.length
  | .bytes bs => .ok bs.length
  | d => .error (.mistyped ("object of type '" ++ d.form ++ "' has no len()"))

/-- A key in words. -/
def keyText (hive : Hive) (path : Datum) : String := hive.short ++ "\\" ++ path.display

/-- A value name in words; the default value has none. -/
def nameText (name : Datum) : String := if name.truthy then name.display else "(Default)"

/-- What a write would do. -/
def plan : Write → Except Failure String
  | setValue hive path name value =>
    .ok ("set " ++ keyText hive path ++ "\\" ++ nameText name ++ " = " ++ value.display)
  | deleteValue hive path name =>
    .ok ("delete value " ++ keyText hive path ++ "\\" ++ nameText name)
  | createKey hive path => .ok ("create key " ++ keyText hive path)
  | deleteKey hive path => .ok ("delete key " ++ keyText hive path)
  | stopService service => .ok ("stop service " ++ service.display)
  | startService service => .ok ("start service " ++ service.display)
  | setStartup service startup =>
    .ok ("set service " ++ service.display ++ " startup type to " ++ startup.label)
  | runScript script timeout elevated => do
    let mode := if elevated then "elevated " else ""
    return "run " ++ mode ++ "script (" ++ toString (← size script) ++ " chars, timeout " ++
      timeout.display ++ "s)"
  | writeFile path content _ => do
    return "write " ++ toString (← size content) ++ " chars to " ++ path.display
  | createDirectory path => .ok ("create directory " ++ path.display)
  | deletePath path => .ok ("delete " ++ path.display)
  | movePath source target => .ok ("move " ++ source.display ++ " to " ++ target.display)
  | copyPath source target => .ok ("copy " ++ source.display ++ " to " ++ target.display)

/-- The reply of a write that is taken to have gone well. -/
def wellDone : (w : Write) → w.Reply
  | setValue .. => ()
  | deleteValue .. => true
  | createKey .. => true
  | deleteKey .. => true
  | stopService .. => ()
  | startService .. => ()
  | setStartup .. => ()
  | runScript .. => { exitCode := some 0 }
  | writeFile .. => ()
  | createDirectory .. => ()
  | deletePath .. => ()
  | movePath .. => ()
  | copyPath .. => ()

end Write
end TweakEngine
