/-
# Operations

What a tweak does: changes of registry values and keys, of services and of files, and
scripts.  Text fields hold what the catalog file holds, so they are loosely typed.
Every operation has a description for lists and results; a script is described by its
first line.
-/

import TweakEngine.ServiceState
import TweakEngine.Registry.Coerce

namespace TweakEngine

/-- What is done to the registry. -/
inductive RegistryAction
  | setValue | deleteValue | deleteKey | createKey
  deriving DecidableEq, Repr

instance : Labelled RegistryAction where
  vocabulary := "RegistryOperationType"
  members := [.setValue, .deleteValue, .deleteKey, .createKey]
  label
    | .setValue => "SetValue" | .deleteValue => "DeleteValue" | .deleteKey => "DeleteKey"
    | .createKey => "CreateKey"
  constant
    | .setValue => "SET_VALUE" | .deleteValue => "DELETE_VALUE" | .deleteKey => "DELETE_KEY"
    | .createKey => "CREATE_KEY"

/-- What is done to a service. -/
inductive ServiceAction
  | stop | start | disable | enable | setStartupType
  deriving DecidableEq, Repr

instance : Labelled ServiceAction where
  vocabulary := "ServiceOperationType"
  members := [.stop, .start, .disable, .enable, .setStartupType]
  label
    | .stop => "Stop" | .start => "Start" | .disable => "Disable" | .enable => "Enable"
    | .setStartupType => "SetStartupType"
  constant
    | .stop => "STOP" | .start => "START" | .disable => "DISABLE" | .enable => "ENABLE"
    | .setStartupType => "SET_STARTUP_TYPE"

/-- What is done to a file or directory. -/
inductive FileAction
  | delete | createFile | createDirectory | rename | copy | setAttributes | takeOwnership
  deriving DecidableEq, Repr

instance : Labelled FileAction where
  vocabulary := "FileOperationType"
  members := [.delete, .createFile, .createDirectory, .rename, .copy, .setAttributes,
    .takeOwnership]
  label
    | .delete => "Delete" | .createFile => "CreateFile" | .createDirectory => "CreateDirectory"
    | .rename => "Rename" | .copy => "Copy" | .setAttributes => "SetAttributes"
    | .takeOwnership => "TakeOwnership"
  constant
    | .delete => "DELETE" | .createFile => "CREATE_FILE" | .createDirectory => "CREATE_DIRECTORY"
    | .rename => "RENAME" | .copy => "COPY" | .setAttributes => "SET_ATTRIBUTES"
    | .takeOwnership => "TAKE_OWNERSHIP"

/-- A change of one registry value or key. -/
structure RegistryOperation where
  hive : Hive
  keyPath : Datum
  /-- The name of the value; absent or empty for the default value. -/
  valueName : Datum := .null
  /-- The payload that `setValue` writes, as found in the catalog. -/
  value : Datum := .null
  kind : ValueKind := .dword
  action : RegistryAction := .setValue
  description : Datum := .text ""

/-- A change of one service. -/
structure ServiceOperation where
  service : Datum
  action : ServiceAction := .disable
  startup : Option StartupType := none
  description : Datum := .text ""

/-- A script, and the script that undoes it. -/
structure ScriptOperation where
  script : Datum
  elevated : Bool := false
  timeout : Int := 30
  revert : Datum := .null
  description : Datum := .text ""

/-- A change of one file or directory. -/
structure FileOperation where
  path : Datum
  action : FileAction
  content : Datum := .null
  target : Datum := .null
  createDirectories : Bool := true
  /-- Where `delete` keeps a copy. -/
  backup : Datum := .null
  description : Datum := .text ""

namespace RegistryOperation

/-- The payload against the declared kind. -/
def resolveValue (op : RegistryOperation) : Except Failure (Option RegistryValue) :=
  RegistryValue.coerce op.value op.kind

/-- The place that the operation changes. -/
def place (op : RegistryOperation) : String :=
  let path := op.hive.short ++ "\\" ++ op.keyPath.display
  if op.valueName.truthy then path ++ "\\" ++ op.valueName.display else path

/-- The description of the operation. -/
def describe (op : RegistryOperation) : Datum :=
  if op.description.truthy then op.description
  else if op.action = .setValue then
    .text ("Set " ++ op.place ++ " = " ++ op.value.display ++ " (" ++ op.kind.label ++ ")")
  else .text (Labelled.label op.action ++ " " ++ op.place)

end RegistryOperation

/-- The description of a service operation. -/
def ServiceOperation.describe (op : ServiceOperation) : Datum :=
  if op.description.truthy then op.description
  else match op.action, op.startup with
    | .setStartupType, some t =>
      .text ("Set service " ++ op.service.display ++ " startup type to " ++ t.label)
    | action, _ => .text (Labelled.label action ++ " service " ++ op.service.display)

/-- The longest line of a script that is shown. -/
def ScriptOperation.shownLength : Nat := 60

/-- The description of a script; one that is no text cannot be described. -/
def ScriptOperation.describe (op : ScriptOperation) : Except Failure Datum :=
  if op.description.truthy then .ok op.description
  else match op.script with
    | .text s =>
      let line := (Text.firstLine (Text.trim s)).toList
      let shown :=
        if line.length > shownLength then line.take (shownLength - 3) ++ "...".toList else line
      .ok (.text ("Run script: " ++ String.ofList shown))
    | d => .error (Failure.lacks d "strip")

/-- The description of a file operation. -/
def FileOperation.describe (op : FileOperation) : Datum :=
  if op.description.truthy then op.description
  else
    let text := Labelled.label op.action ++ " " ++ op.path.display
    .text (if op.target.truthy then text ++ " -> " ++ op.target.display else text)

/-- The operations of one direction of a tweak.  They run in the order registry,
services, scripts, files, and are restored in the opposite order. -/
structure OperationSet where
  registry : List RegistryOperation := []
  services : List ServiceOperation := []
  scripts : List ScriptOperation := []
  files : List FileOperation := []

namespace OperationSet

/-- The number of operations. -/
def count (ops : OperationSet) : Nat :=
  ops.registry.length + ops.services.length + ops.scripts.length + ops.files.length

/-- Whether there are no operations. -/
def isEmpty (ops : OperationSet) : Bool := ops.count == 0

/-- Whether running the operations needs administrator rights: a machine-wide hive, a
service or a script does. -/
def requiresElevation (ops : OperationSet) : Bool :=
  ops.registry.any (fun op => op.hive.isMachineWide) || !ops.services.isEmpty ||
    !ops.scripts.isEmpty

/-- The descriptions in the order in which the operations run. -/
def describe (ops : OperationSet) : Except Failure (List Datum) := do
  let scripts ← ops.scripts.mapM ScriptOperation.describe
  return ops.registry.map RegistryOperation.describe ++
    ops.services.map ServiceOperation.describe ++ scripts ++ ops.files.map FileOperation.describe

end OperationSet
end TweakEngine
