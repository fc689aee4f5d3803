/-
# Calls by name

Every request to a system has a name and arguments.  `Write.call` writes a change down
as the list of both, and `Mutator.call` carries out what such a list asks for.
-/

import TweakEngine.System.Machine

namespace TweakEngine

/-- A registry value in the form of files, with its kind. -/
def RegistryValue.tagged (v : RegistryValue) : Datum :=
  .object [("kind", .text v.kind.label), ("data", v.toJson)]

/-- A change as its name and its arguments. -/
def Write.nameAndArguments : Write → String × List Datum
  | setValue hive path name value =>
    ("set_registry_value", [.text (Labelled.label hive), path, name, value.tagged])
  | deleteValue hive path name =>
    ("delete_registry_value", [.text (Labelled.label hive), path, name])
  | createKey hive path => ("create_registry_key", [.text (Labelled.label hive), path])
  | deleteKey hive path => ("delete_registry_key", [.text (Labelled.label hive), path])
  | stopService service => ("stop_service", [service])
  | startService service => ("start_service", [service])
  | setStartup service startup =>
    ("set_service_startup_type", [service, .text startup.label])
  | runScript script timeout elevated => ("run_script", [script, timeout, .bool elevated])
  | writeFile path content createDirectories =>
    ("write_file", [path, content, .bool createDirectories])
  | createDirectory path => ("create_directory", [path])
  | deletePath path => ("delete_path", [path])
  | movePath source target => ("move_path", [source, target])
  | copyPath source target => ("copy_path", [source, target])

/-- A change as one list. -/
def Write.call (w : Write) : Datum :=
  .list (.text w.nameAndArguments.1 :: w.nameAndArguments.2)

namespace Request

/-- A value of a key in one text. -/
def valueTarget (path name : Datum) : String :=
  path.display ++ "\\" ++ (if name.isNull then "" else name.display)

/-- The name of a request, and what it is about. -/
def nameAndTarget : Request → String × String
  | readValue _ path name => ("read_registry_value", valueTarget path name)
  | keyExists _ path => ("key_exists", path.display)
  | queryService service => ("query_service", service.display)
  | pathExists path => ("path_exists", path.display)
  | readText path => ("read_text", path.display)
  | runDiagnostic script => ("run_diagnostic_script", script.display)
  | write w =>
    let target := match w with
      | .setValue _ path name _ | .deleteValue _ path name => valueTarget path name
      | .createKey _ path | .deleteKey _ path => path.display
      | .stopService x | .startService x | .setStartup x _ | .runScript x _ _
      | .writeFile x _ _ | .createDirectory x | .deletePath x | .movePath x _
      | .copyPath x _ => x.display
    (w.nameAndArguments.1, target)

end Request

/-- The JSON form of a reading. -/
def Reading.toDatum (r : Reading) : Datum :=
  .object
    [("key_exists", .bool r.keyExists), ("value_exists", .bool r.valueExists),
     ("value", (r.value?.map Datum.registry).getD .null),
     ("error", match r with
      | denied text => .text text
      | _ => .null)]

/-- The JSON form of the state of a service. -/
def ServiceSnapshot.toDatum (s : ServiceSnapshot) : Datum :=
  .object
    [("name", s.name), ("exists", .bool s.found), ("state", .text s.state.label),
     ("startup_type", .text s.startup.label)]

/-- The JSON form of the outcome of a script. -/
def ScriptOutcome.toDatum (o : ScriptOutcome) : Datum :=
  .object
    [("exit_code", (o.exitCode.map Datum.int).getD .null), ("stdout", .ofText? o.stdout),
     ("stderr", .ofText? o.stderr), ("timed_out", .bool o.timedOut),
     ("output_captured", .bool o.outputCaptured), ("success", .bool o.success)]

namespace Write

/-- The JSON form of the reply to a write. -/
def replyDatum : (w : Write) → w.Reply → Datum
  | deleteValue .., r => .bool r
  | createKey .., r => .bool r
  | deleteKey .., r => .bool r
  | runScript .., r => r.toDatum
  | setValue .., _ => .null
  | stopService .., _ => .null
  | startService .., _ => .null
  | setStartup .., _ => .null
  | writeFile .., _ => .null
  | createDirectory .., _ => .null
  | deletePath .., _ => .null
  | movePath .., _ => .null
  | copyPath .., _ => .null

/-- The change that a name and arguments stand for. -/
def ofCall (name : String) (args : List Datum) : Except Failure (Option Write) := do
  let arg (i : Nat) : Datum := args.getD i .null
  let hive : Except Failure Hive := Labelled.ofDatum (arg 0)
  match name with
  | "set_registry_value" => match arg 3 with
    | .registry v => return some (setValue (← hive) (arg 1) (arg 2) v)
    | d => throw (Failure.lacks d "data")
  | "delete_registry_value" => return some (deleteValue (← hive) (arg 1) (arg 2))
  | "create_registry_key" => return some (createKey (← hive) (arg 1))
  | "delete_registry_key" => return some (deleteKey (← hive) (arg 1))
  | "stop_service" => return some (stopService (arg 0))
  | "start_service" => return some (startService (arg 0))
  | "set_service_startup_type" =>
    return some (setStartup (arg 0) (← Labelled.ofDatum (arg 1)))
  | "run_script" => return some (runScript (arg 0) (arg 1) (arg 2).truthy)
  | "write_file" => return some (writeFile (arg 0) (arg 1) (args.getD 2 (.bool true)).truthy)
  | "create_directory" => return some (createDirectory (arg 0))
  | "delete_path" => return some (deletePath (arg 0))
  | "move_path" => return some (movePath (arg 0) (arg 1))
  | "copy_path" => return some (copyPath (arg 0) (arg 1))
  | _ => return none

end Write

/-- Carries out a call by its name; diagnostic scripts are run by `probe`. -/
def Mutator.call {μ : Type} (m : Mutator μ) (probe : Probe μ) (name : String) (args : List Datum) :
    Call μ Datum := do
  let arg (i : Nat) : Datum := args.getD i .null
  match ← Act.result (Write.ofCall name args) with
  | some w => return w.replyDatum (← m.write w)
  | none =>
    match name with
    | "read_registry_value" => do
      let hive ← Act.result (Labelled.ofDatum (arg 0))
      return (← m.readValue hive (arg 1) (arg 2)).toDatum
    | "key_exists" => do
      let hive ← Act.result (Labelled.ofDatum (arg 0))
      return .bool (← m.keyExists hive (arg 1))
    | "query_service" => do return (← m.queryService (arg 0)).toDatum
    | "path_exists" => do return .bool (← m.pathExists (arg 0))
    | "read_text" => m.readText (arg 0)
    | "run_diagnostic_script" => do return (← probe.runDiagnostic (arg 0) (arg 1)).toDatum
    | _ => throw (.noAttribute ("no call named " ++ name))

end TweakEngine
