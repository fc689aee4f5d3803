/-
# A machine in memory

A machine holds registry keys with their values, services, files, directories, and what
its scripts answer.  Key paths, value names and services are found ignoring the case of
ASCII letters; the empty name is the default value of a key.  `Machine.apply` is what
a write does to a machine.  `faults` lists the requests that the machine refuses, and a
refused request has no effect and is not put on record.
-/

import TweakEngine.System.Host

namespace TweakEngine

/-- Something that is asked of a machine. -/
inductive Request
  | readValue (hive : Hive) (path name : Datum)
  | keyExists (hive : Hive) (path : Datum)
  | queryService (service : Datum)
  | pathExists (path : Datum)
  | readText (path : Datum)
  | runDiagnostic (script : Datum)
  | write (w : Write)

/-- A service of a machine. -/
structure Machine.Service where
  name : String
  state : RunState := .running
  startup : StartupType := .automatic
  deriving DecidableEq, Repr

/-- What a script answers, and how long it takes in microseconds. -/
structure Machine.Script where
  outcome : ScriptOutcome := { exitCode := some 0 }
  micros : Int := 0

/-- A machine in memory. -/
structure Machine where
  keys : Assoc (Hive × String) (Assoc String (Option RegistryValue)) := []
  denied : List (Hive × String) := []
  services : Assoc String Machine.Service := []
  /-- Files with their texts; null for one that cannot be read. -/
  files : Assoc String Datum := []
  directories : List String := []
  scripts : Assoc String Machine.Script := []
  faults : Request → Option Failure := fun _ => none

namespace Machine

/-- The text of a name. -/
def textOf (d : Datum) : Except Failure String :=
  match d with
  | .text s => .ok s
  | d => .error (Failure.lacks d "lower")

/-- The name under which a key path, value or service is stored. -/
def folded (d : Datum) : Except Failure String := Text.lowerAsciiText <$> textOf d

/-- The name under which a value is stored. -/
def foldedName (d : Datum) : Except Failure String :=
  if d.truthy then folded d else .ok ""

/-- The answer to reading a value. -/
def reading (m : Machine) (hive : Hive) (path name : String) : Reading :=
  if (hive, path) ∈ m.denied then .denied "Access is denied"
  else match Assoc.get? (hive, path) m.keys with
    | none => .missingKey
    | some values => match Assoc.get? name values with
      | none => .missingValue
      | some v => .found v

/-- The state of a service. -/
def snapshot (m : Machine) (asked : Datum) (name : String) : ServiceSnapshot :=
  match Assoc.get? name m.services with
  | none => { name := asked, found := false }
  | some s => { name := .text s.name, found := true, state := s.state, startup := s.startup }

/-- Whether a file or directory has a path; only texts are paths. -/
def hasPath (m : Machine) (path : Datum) : Except Failure Bool :=
  match path with
  | .text s => .ok (Assoc.has s m.files || m.directories.contains s)
  | .list _ | .object _ => .error (.mistyped ("unhashable type: '" ++ path.form ++ "'"))
  | _ => .ok false

/-- The text of a file, or null. -/
def fileText (m : Machine) (path : Datum) : Datum :=
  match path with
  | .text s => (Assoc.get? s m.files).getD .null
  | _ => .null

/-- What a script answers. -/
def scriptOf (m : Machine) (script : Datum) : Script :=
  match script with
  | .text s => (Assoc.get? s m.scripts).getD {}
  | _ => {}

/-- Changes a service that exists. -/
def withService (m : Machine) (service : Datum) (f : Service → Service) :
    Except Failure Machine := do
  let name ← folded service
  match Assoc.get? name m.services with
  | none => .error (.system (.stated .other ("No such service: " ++ service.display)))
  | some s => return { m with services := Assoc.put name (f s) m.services }

/-- The refusal of a path that is not there. -/
def noPath {α : Type} (path : Datum) : Except Failure α :=
  .error (.system (.stated .notFound ("No such path: " ++ path.display)))

/-- Adds a directory once. -/
def addDirectory (m : Machine) (path : String) : Machine :=
  { m with directories := m.directories.filter (· ≠ path) ++ [path] }

/-- Takes away what has a path. -/
def removePath (m : Machine) (path : Datum) : Except Failure Machine :=
  match path with
  | .text s =>
    if Assoc.has s m.files || m.directories.contains s then
      .ok { m with
        files := Assoc.erase s m.files
        directories := m.directories.filter (· ≠ s) }
    else noPath path
  | path => noPath path

/-- Puts a second name to a file or else a directory. -/
def duplicate (m : Machine) (source target : Datum) : Except Failure Machine := do
  let t ← textOf target
  match source with
  | .text s =>
    match Assoc.get? s m.files with
    | some content => return { m with files := Assoc.put t content m.files }
    | none => if m.directories.contains s then return m.addDirectory t else noPath source
  | source => noPath source

/-- Gives a file or else a directory another name. -/
def relocate (m : Machine) (source target : Datum) : Except Failure Machine := do
  let t ← textOf target
  match source with
  | .text s =>
    match Assoc.get? s m.files with
    | some content => return { m with files := Assoc.put t content (Assoc.erase s m.files) }
    | none =>
      if m.directories.contains s then
        return { m with directories := m.directories.filter (· ≠ s) }.addDirectory t
      else noPath source
  | source => noPath source

/-- Whether a stored key is a key or lies below it. -/
def atOrBelow (hive : Hive) (path : String) (k : Hive × String) : Bool :=
  k.1 == hive && (k.2 == path || (path ++ "\\").toList.isPrefixOf k.2.toList)

/-- What a write does to a machine, and its reply. -/
def apply (m : Machine) : (w : Write) → Except Failure (w.Reply × Machine)
  | .setValue hive path name value => do
    let key := (hive, ← folded path)
    let values := (Assoc.get? key m.keys).getD []
    let values := Assoc.put (← foldedName name) (some value) values
    return ((), { m with keys := Assoc.put key values m.keys })
  | .deleteValue hive path name => do
    let key := (hive, ← folded path)
    let n ← foldedName name
    match Assoc.get? key m.keys with
    | none => return (false, m)
    | some values =>
      return (Assoc.has n values, { m with keys := Assoc.put key (Assoc.erase n values) m.keys })
  | .createKey hive path => do
    let key := (hive, ← folded path)
    if Assoc.has key m.keys then return (false, m)
    else return (true, { m with keys := Assoc.put key [] m.keys })
  | .deleteKey hive path => do
    let p ← folded path
    let kept := m.keys.filter fun e => !atOrBelow hive p e.1
    return (kept.length != m.keys.length, { m with keys := kept })
  | .stopService service => do
    return ((), ← m.withService service fun s => { s with state := .stopped })
  | .startService service => do
    return ((), ← m.withService service fun s => { s with state := .running })
  | .setStartup service startup => do
    return ((), ← m.withService service fun s => { s with startup := startup })
  | .runScript script _ _ => .ok ((m.scriptOf script).outcome, m)
  | .writeFile path content _ => do
    return ((), { m with files := Assoc.put (← textOf path) content m.files })
  | .createDirectory path => do return ((), m.addDirectory (← textOf path))
  | .deletePath path => do return ((), ← m.removePath path)
  | .movePath source target => do return ((), ← m.relocate source target)
  | .copyPath source target => do return ((), ← m.duplicate source target)

/-- The time that a write takes. -/
def duration (m : Machine) : Write → Int
  | .runScript script _ _ => (m.scriptOf script).micros
  | _ => 0

/-- Asks a machine, unless it refuses the request. -/
def ask {α : Type} (r : Request) (f : Machine → Except Failure α) : Call Machine α := do
  match ← Host.onMachine (Act.view fun m => m.faults r) with
  | some failure => throw failure
  | none => Act.result (← Host.onMachine (Act.view f))

/-- Changes a machine, unless it refuses the request. -/
def perform (w : Write) : Call Machine w.Reply := do
  match ← Host.onMachine (Act.view fun m => m.faults (.write w)) with
  | some failure => throw failure
  | none =>
    Host.record (.wrote w)
    let micros ← Host.onMachine (Act.view fun m => m.duration w)
    let reply ← Host.onMachine (Act.of fun m => match m.apply w with
      | .ok (reply, m) => (.ok reply, m)
      | .error f => (.error f, m))
    Host.wait micros
    return reply

/-- The answer to reading a value, by any names. -/
def readValue (hive : Hive) (path name : Datum) : Call Machine Reading :=
  ask (.readValue hive path name) fun m => do
    return m.reading hive (← folded path) (← foldedName name)

/-- Whether a key is stored. -/
def keyExists (hive : Hive) (path : Datum) : Call Machine Bool :=
  ask (.keyExists hive path) fun m => do return Assoc.has (hive, ← folded path) m.keys

/-- The state of a service, by any name. -/
def queryService (service : Datum) : Call Machine ServiceSnapshot :=
  ask (.queryService service) fun m => do return m.snapshot service (← folded service)

/-- Whether a path is taken. -/
def pathExists (path : Datum) : Call Machine Bool :=
  ask (.pathExists path) fun m => m.hasPath path

/-- The text of a file, or null. -/
def readText (path : Datum) : Call Machine Datum :=
  ask (.readText path) fun m => .ok (m.fileText path)

/-- Runs a script that changes nothing. -/
def runDiagnostic (script _timeout : Datum) : Call Machine ScriptOutcome := do
  let s ← ask (.runDiagnostic script) fun m => .ok (m.scriptOf script)
  Host.wait s.micros
  return s.outcome

/-- Reading a machine in memory. -/
def probe : Probe Machine := { readValue, keyExists, queryService, pathExists, runDiagnostic }

/-- Changing a machine in memory. -/
def mutator : Mutator Machine :=
  { readValue, keyExists, queryService, pathExists, readText, write := perform }

end Machine
end TweakEngine
