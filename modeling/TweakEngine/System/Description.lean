/-
# Machines described in JSON

A machine in memory can be described by an object: its keys with their values, the
keys that are denied, services, files, directories, what scripts answer, and which
calls fail.  `Machine.edit` changes a machine as an object says, and `Machine.toDatum`
describes what a machine holds.
-/

import TweakEngine.System.Calls

namespace TweakEngine

/-- A failure of a sort that is named. -/
def Failure.named (sort text : String) : Failure :=
  match sort with
  | "PermissionError" => .system (.stated .permission text)
  | "ValueError" => .badValue text
  | "RuntimeError" => .unexpected text
  | "SubprocessError" => .process text
  | "TweakError" => .refused text
  | "TweakConfigurationError" => .malformed (.reported text)
  | "ProbeUnavailableError" => .probeUnavailable text
  | "MutatorUnavailableError" => .mutatorUnavailable text
  | "OperationCancelledError" => .cancelled text
  | _ => .system (.stated .other text)

namespace Datum

/-- A field, or null. -/
def get (d : Datum) (key : String) : Datum := (d.field? key).getD null

/-- The items of a list field. -/
def listAt (d : Datum) (key : String) : List Datum :=
  match d.field? key with
  | some (list items) => items
  | _ => []

/-- The fields of an object field. -/
def fieldsAt (d : Datum) (key : String) : List (String × Datum) :=
  match d.field? key with
  | some (object fields) => fields
  | _ => []

/-- A text field, or the empty text. -/
def textAt (d : Datum) (key : String) : String := ((d.field? key).bind text?).getD ""

/-- Whether a field counts as true; `default` when it is missing. -/
def flagAt (d : Datum) (key : String) (default : Bool) : Bool :=
  ((d.field? key).map truthy).getD default

/-- A number of seconds in microseconds. -/
def seconds : Datum → Int
  | int n => n * Moment.second
  | float x => Moment.microsOf x
  | _ => 0

end Datum

namespace Machine

/-- The calls that fail, by name or by name and target; the latter counts more. -/
def faultsOf (table : Datum) (r : Request) : Option Failure :=
  let (name, target) := r.nameAndTarget
  ((table.field? (name ++ ":" ++ target)).or (table.field? name)).map fun sort =>
    Failure.named sort.display (name ++ " failed")

/-- What a script answers. -/
def Script.ofDatum (d : Datum) : Script :=
  let timedOut := d.flagAt "timed_out" false
  let exitCode := match (d.field? "exit").getD (.int 0) with
    | .int n => if timedOut then none else some n
    | _ => none
  let output (key : String) : Option String := ((d.field? key).getD (.text "")).text?
  { micros := (d.get "takes").seconds
    outcome := { exitCode, stdout := output "stdout", stderr := output "stderr", timedOut } }

/-- The place of a key. -/
def placeOf (d : Datum) : Except Failure (Hive × String) := do
  return (← Labelled.ofDatum (d.get "hive"), Text.lowerAsciiText (d.textAt "path"))

/-- The values of a key, added to those that it has. -/
def addValues (values : Assoc String (Option RegistryValue)) (ds : List Datum) :
    Except Failure (Assoc String (Option RegistryValue)) :=
  ds.foldlM (fun values d => do
    let kind ← Labelled.ofDatum (d.get "kind")
    let value ← RegistryValue.coerce (d.get "data") kind
    return Assoc.put (Text.lowerAsciiText (d.textAt "name")) value values) values

/-- Adds a key with its values. -/
def addKey (m : Machine) (d : Datum) : Except Failure Machine := do
  let key ← placeOf d
  let values ← addValues ((Assoc.get? key m.keys).getD []) (d.listAt "values")
  return { m with keys := Assoc.put key values m.keys }

/-- Adds a service. -/
def addService (m : Machine) (d : Datum) : Machine :=
  let service : Service :=
    { name := d.textAt "name"
      state := (Labelled.parse? (d.textAt "state")).getD .running
      startup := (Labelled.parse? (d.textAt "startup")).getD .automatic }
  { m with services := Assoc.put (Text.lowerAsciiText service.name) service m.services }

/-- Takes a path away, whatever has it. -/
def dropPath (m : Machine) (path : String) : Machine :=
  { m with
    files := Assoc.erase path m.files
    directories := m.directories.filter (· ≠ path) }

/-- Changes a machine as an object says. -/
def edit (m : Machine) (d : Datum) : Except Failure Machine := do
  let m ← (d.listAt "keys").foldlM addKey m
  let denied ← (d.listAt "denied").mapM placeOf
  let m := (d.listAt "services").foldl addService m
  let m := { m with
    denied := m.denied ++ denied
    files := Assoc.update m.files (d.fieldsAt "files")
    scripts := Assoc.update m.scripts
      ((d.fieldsAt "scripts").map fun (e : String × Datum) => (e.1, Script.ofDatum e.2))
    faults := ((d.field? "fail").map faultsOf).getD m.faults }
  let m := (d.listAt "dirs").foldl (fun (m : Machine) path => m.addDirectory path.display) m
  let gone ← (d.listAt "remove_keys").mapM placeOf
  let m := { m with
    keys := gone.foldl (fun keys key => Assoc.erase key keys) m.keys
    services := (d.listAt "remove_services").foldl
      (fun services (name : Datum) => Assoc.erase (Text.lowerAsciiText name.display) services)
      m.services }
  return (d.listAt "remove_paths").foldl (fun (m : Machine) path => m.dropPath path.display) m

/-- The order of keys by hive and path. -/
def keyBefore (a b : Hive × String) : Bool :=
  let x := Labelled.label a.1
  let y := Labelled.label b.1
  Text.before x y || (x == y && Text.before a.2 b.2)

/-- What a machine holds. -/
def toDatum (m : Machine) : Datum :=
  let keys := m.keys.mergeSort fun a b => !keyBefore b.1 a.1
  .object
    [("keys", .list (keys.map fun e => .list
        [.text (Labelled.label e.1.1), .text e.1.2,
         .object (e.2.map fun v => (v.1, (v.2.map RegistryValue.tagged).getD .null))])),
     ("services", .object (m.services.map fun e =>
        (e.1, .list [.text e.2.state.label, .text e.2.startup.label]))),
     ("files", .object m.files),
     ("dirs", .list ((Text.sort m.directories).map .text))]

end Machine
end TweakEngine
