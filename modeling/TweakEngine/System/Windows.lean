/-
# Access to a Windows system

`WindowsAccess.probe` and `WindowsAccess.mutator` work on a running Windows: the
registry through its tree, services and scripts through commands of the platform, and
files through the disk.  Elsewhere the registry, services and scripts are unavailable;
files work everywhere.  Paths of files may name variables of the environment and the
home directory.
-/

import TweakEngine.System.RegistryTree
import TweakEngine.System.Shell

namespace TweakEngine

/-- A service as the management interface of the platform shows it. -/
structure ManagedService where
  name : String
  state : Datum
  mode : Datum

/-- The management interface of the platform. -/
inductive Management
  | absent
  | broken
  | services (known : List ManagedService)

/-- What a running Windows holds. -/
structure Windows where
  registry : RegistryTree := {}
  management : Management := .absent

/-- How a Windows system is reached. -/
structure WindowsAccess where
  /-- Whether there is a Windows to reach. -/
  available : Bool := true
  /-- How many seconds a command about a service may take. -/
  commandTimeout : Datum := .int 60
  environment : Assoc String String := []

namespace WindowsAccess

/-- The speaker of the access. -/
def speaker : String := "tweakd.system.windows"

/-- The text for a platform that cannot be reached. -/
def unavailableText : String := "Windows system access is not available on this platform"

/-- Refuses to read a platform that cannot be reached. -/
def requireProbe (w : WindowsAccess) : Call Windows Unit :=
  if w.available then return else throw (.probeUnavailable unavailableText)

/-- Refuses to change a platform that cannot be reached. -/
def requireMutator (w : WindowsAccess) : Call Windows Unit :=
  if w.available then return else throw (.mutatorUnavailable unavailableText)

/-! ## The registry -/

/-- The registry of a Windows. -/
def registryPart : Part (Host Windows) RegistryTree :=
  Host.machinePart.inside ⟨Windows.registry, fun r w => { w with registry := r }⟩

/-- A question to the registry. -/
def ask {α : Type} (f : RegistryTree → Except Failure α) : Call Windows α := do
  Act.result (← registryPart.lift (Act.view f))

/-- A change of the registry. -/
def edit (f : RegistryTree → Except Failure RegistryTree) : Call Windows Unit :=
  registryPart.lift (Act.of fun t => match f t with
    | .ok t => (.ok (), t)
    | .error e => (.error e, t))

/-- Reads a value. -/
def readValue (w : WindowsAccess) (hive : Hive) (path name : Datum) : Call Windows Reading := do
  w.requireProbe
  let k ← Act.result (RegistryTree.place hive path)
  let n ← Act.result (RegistryTree.nameOf name)
  match ← (ask fun t => t.openKey k).attempt with
  | .error f =>
    if f = RegistryTree.missing then return .missingKey
    Host.say .debug speaker
      ("Access denied reading " ++ Write.keyText hive path ++ ": " ++ f.message)
    return .denied f.message
  | .ok values =>
    match Assoc.get? n values with
    | none => return .missingValue
    | some v => return .found (← Act.result v.value)

/-- Whether a key is there. -/
def keyExists (w : WindowsAccess) (hive : Hive) (path : Datum) : Call Windows Bool := do
  w.requireProbe
  let k ← Act.result (RegistryTree.place hive path)
  ask fun t => .ok (t.hasKey k)

/-- Writes a value; its key is made if it is missing. -/
def setValue (hive : Hive) (path name : Datum) (value : RegistryValue) : Call Windows Unit := do
  let k ← Act.result (RegistryTree.place hive path)
  let n ← Act.result (RegistryTree.nameOf name)
  edit fun t => do
    let t ← t.createKey k
    return t.putValues k (Assoc.put n (StoredValue.ofValue value) (← t.openKey k))
  Host.say .debug speaker ("Set " ++ Write.keyText hive path ++ "\\" ++ Write.nameText name ++
    " = " ++ value.display)

/-- Removes a value.  Tells whether there was one. -/
def deleteValue (hive : Hive) (path name : Datum) : Call Windows Bool := do
  let k ← Act.result (RegistryTree.place hive path)
  let n ← Act.result (RegistryTree.nameOf name)
  match ← (ask fun t => t.openKey k).attempt with
  | .error f => if f = RegistryTree.missing then return false else throw f
  | .ok values =>
    edit fun t => .ok (t.putValues k (Assoc.erase n values))
    return Assoc.has n values

/-- Makes a key.  Tells whether it was missing. -/
def createKey (w : WindowsAccess) (hive : Hive) (path : Datum) : Call Windows Bool := do
  let there ← w.keyExists hive path
  let k ← Act.result (RegistryTree.place hive path)
  edit fun t => t.createKey k
  return !there

/-- The names from an index on of the keys directly below a key.  They are asked for one after
the other until one is refused; `fuel` bounds their number. -/
def subkeysFrom (k : KeyPlace) : Nat → Nat → Call Windows (List String)
  | 0, _ => return []
  | fuel + 1, index => do
    match ← (ask fun t => t.subkeyAt k index).rescue Failure.isSystem with
    | .ok name => return name :: (← subkeysFrom k fuel (index + 1))
    | .error _ => return []

/-- Removes a key and the keys below it, at most `depth` levels of them.  Whatever was
removed before a refusal stays removed. -/
def deleteTree : Nat → KeyPlace → Call Windows Unit
  | depth, k => do
    discard (ask fun t => t.openKey k)
    let keys ← ask fun t => .ok t.keys.length
    let below ← subkeysFrom k (keys + 1) 0
    match depth with
    | 0 => pure ()
    | depth + 1 =>
      for name in below do
        deleteTree depth (k.1, k.2 ++ "\\" ++ name)
    edit fun t => t.removeLeaf k

/-- Removes a key and the keys below it.  Tells whether there was one. -/
def deleteKey (w : WindowsAccess) (hive : Hive) (path : Datum) : Call Windows Bool := do
  if !(← w.keyExists hive path) then return false
  let k ← Act.result (RegistryTree.place hive path)
  let keys ← ask fun t => .ok t.keys.length
  deleteTree keys k
  return true

/-! ## Services -/

/-- Runs a command of the platform's shell. -/
def shell (w : WindowsAccess) (text : String) : Call Windows ShellResult :=
  Host.shell text w.commandTimeout

/-- Asks the management interface about a service; it may not answer. -/
def queryManagement (service : Datum) : Call Windows (Option ServiceSnapshot) := do
  match ← Host.onMachine (Act.view Windows.management) with
  | .absent =>
    Host.say .debug speaker "WMI module not available"
    return none
  | .broken =>
    Host.say .error speaker "Error querying service via WMI"
    return none
  | .services known =>
    match known.find? fun s => service.same (.text s.name) with
    | none => return some { name := service, found := false }
    | some s =>
      let state := RunState.ofDatum s.state
      return some { name := service, found := true, state, startup := StartupType.ofDatum s.mode }

/-- The state of a service out of what a command wrote about it. -/
def serviceOf (service d : Datum) : Except Failure ServiceSnapshot :=
  match d with
  | .object fields =>
    let field (key : String) : Datum := (Assoc.get? key fields).getD .null
    .ok
      { name := service, found := true
        state := RunState.ofDatum (field "Status")
        startup := StartupType.ofDatum (field "StartType") }
  | d => .error (Failure.lacks d "get")

/-- The text of the name of a service. -/
def serviceText (service : Datum) : Except Failure String :=
  match service with
  | .text s => .ok s
  | d => .error (Failure.lacks d "replace")

/-- The state of a service: by a command, or else from the management interface. -/
def queryService (w : WindowsAccess) (service : Datum) : Call Windows ServiceSnapshot := do
  w.requireProbe
  let name ← Act.result (serviceText service)
  let result ← w.shell
    ("$s = Get-Service -Name " ++ shellQuoted name ++ " -ErrorAction SilentlyContinue; " ++
      "if ($s) \x7b $s | Select-Object Name, Status, StartType | ConvertTo-Json -Compress \x7d")
  if result.success && result.output = "" then return { name := service, found := false }
  let found ←
    if result.success then
      let reading := do serviceOf service (← Json.read result.output)
      match ← (Act.result reading).rescue (· matches .json _ | .noAttribute _) with
      | .ok s => pure (some s)
      | .error f => do
        Host.say .error speaker ("Failed to parse PowerShell output: " ++ f.message)
        pure none
    else pure none
  match found with
  | some s => return s
  | none =>
    match ← queryManagement service with
    | some s => return s
    | none => throw (.probeUnavailable ("Cannot query service " ++ name ++ ": " ++
        (if result.error = "" then "no service API available" else result.error)))

/-- The refusal of a platform to change a service. -/
def serviceFailure (what : String) (result : ShellResult) : Failure :=
  .system (.stated .other ("Failed to " ++ what ++ ": " ++
    (if result.error = "" then result.output else result.error)))

/-- Stops or starts a service by a command. -/
def controlService (w : WindowsAccess) (verb word options : String) (service : Datum) :
    Call Windows Unit := do
  let name ← Act.result (serviceText service)
  let result ← w.shell
    (verb ++ " -Name " ++ shellQuoted name ++ options ++ " -ErrorAction Stop")
  if !result.success then
    throw (serviceFailure (word ++ " service " ++ name) { result with output := "" })

/-- The words of the platform for start types. -/
def startWords : List (StartupType × String) :=
  [(.automatic, "auto"), (.automaticDelayed, "delayed-auto"), (.manual, "demand"),
   (.disabled, "disabled"), (.boot, "boot"), (.system, "system")]

/-- Changes when a service starts. -/
def setStartup (w : WindowsAccess) (service : Datum) (startup : StartupType) :
    Call Windows Unit := do
  match startWords.lookup startup with
  | none => throw (.badValue ("Cannot set startup type " ++ startup.label))
  | some word =>
    let argv := [.text "sc.exe", .text "config", service, .text "start=", .text word]
    let result ← Host.command argv w.commandTimeout
    if !result.success then
      throw (serviceFailure
        ("set " ++ service.display ++ " startup type to " ++ startup.label) result)

/-! ## Scripts -/

/-- What the launcher of an elevated script writes when it had to stop the script. -/
def timeoutMark : String := "tweakd:elevated-timeout"

/-- How many seconds more the launcher of an elevated script gets. -/
def grace : Int := 15

/-- A number of seconds in whole milliseconds. -/
def millisOf (timeout : Datum) : Except Failure Int :=
  match timeout with
  | .float x => (Datum.float (x * 1000.0)).toInt
  | d => match d.integral? with
    | some n => .ok (n * 1000)
    | none => .error (.mistyped ("a timeout is a number and not a " ++ d.form))

/-- A number of seconds and the time of the launcher. -/
def withGrace (timeout : Datum) : Datum :=
  match timeout with
  | .float x => .float (x + Decimal.ofInt grace)
  | d => (d.integral?.map fun n => Datum.int (n + grace)).getD d

/-- The command that runs a script with administrator rights and keeps its time limit. -/
def launcher (script : String) (millis : Int) : String :=
  "$p = Start-Process -FilePath powershell.exe -ArgumentList " ++
    "@('-NoProfile','-ExecutionPolicy','Bypass','-EncodedCommand','" ++
    Base64.encode (Encoding.utf16 script) ++ "') " ++
    "-Verb RunAs -PassThru -WindowStyle Hidden; $null = $p.Handle; " ++
    "if (-not $p.WaitForExit(" ++ Decimal.intText millis ++ ")) \x7b " ++
    "Stop-Process -Id $p.Id -Force -ErrorAction SilentlyContinue; " ++
    "Write-Output '" ++ timeoutMark ++ "'; exit 1 \x7d; exit $p.ExitCode"

/-- The text of what a stopped process had written; bytes are read as far as possible. -/
def partialText : Datum → String
  | .null => ""
  | .bytes bs => Encoding.decodeLossy bs
  | d => d.display

/-- Runs a script.  Of an elevated one only the exit code is known. -/
def runScript (script timeout : Datum) (elevated : Bool) : Call Windows ScriptOutcome := do
  let (command, limit) ←
    if elevated then do
      let text ← match script with
        | .text s => pure s
        | d => throw (Failure.lacks d "encode")
      let millis ← Act.result (millisOf timeout)
      pure (Datum.text (launcher text millis), withGrace timeout)
    else pure (script, timeout)
  let argv :=
    ["powershell.exe", "-NoProfile", "-ExecutionPolicy", "Bypass", "-Command"].map Datum.text
  match ← Host.run (argv ++ [command]) limit with
  | .timedOut stdout =>
    Host.say .warning speaker ("PowerShell script timed out after " ++ timeout.display ++ "s")
    return {
      exitCode := none, stdout := some (partialText stdout), timedOut := true
      outputCaptured := !elevated }
  | .failed e =>
    if e.kind = .notFound then throw (.mutatorUnavailable "PowerShell not found")
    else throw (.system e)
  | .ended code stdout stderr =>
    if !elevated then return { exitCode := some code, stdout, stderr }
    if Text.contains (stdout.getD "") timeoutMark then
      Host.say .warning speaker ("Elevated PowerShell script timed out after " ++
        timeout.display ++ "s and was stopped")
      return { exitCode := none, timedOut := true, outputCaptured := false }
    return { exitCode := some code, outputCaptured := false }

/-- Runs a script that changes nothing. -/
def runDiagnostic (w : WindowsAccess) (script timeout : Datum) : Call Windows ScriptOutcome := do
  w.requireProbe
  match ← (runScript script timeout false).attempt with
  | .error (.mutatorUnavailable text) => throw (.probeUnavailable text)
  | r => Act.result r

/-! ## Files -/

/-- Whether a character may stand in the name of a variable. -/
def isNameChar (c : Char) : Bool := c.isAlphanum || c == '_'

/-- The name of the variable that a text after a `$` begins with, and the rest. -/
def reference? (cs : List Char) : Option (String × List Char) :=
  match cs with
  | '{' :: rest =>
    let name := rest.takeWhile (· != '}')
    match rest.drop name.length with
    | _ :: rest => some (String.ofList name, rest)
    | [] => none
  | cs =>
    let name := cs.takeWhile isNameChar
    if name.isEmpty then none else some (String.ofList name, cs.drop name.length)

/-- Replaces the variables that are known; `fuel` bounds the number of steps. -/
def expandFrom (environment : Assoc String String) : Nat → List Char → List Char
  | 0, cs => cs
  | _ + 1, [] => []
  | fuel + 1, c :: cs =>
    match if c = '$' then reference? cs else none with
    | none => c :: expandFrom environment fuel cs
    | some (name, rest) => match Assoc.get? name environment with
      | some value => value.toList ++ expandFrom environment fuel rest
      | none => c :: cs.take (cs.length - rest.length) ++ expandFrom environment fuel rest

/-- The path that a text names. -/
def expand (w : WindowsAccess) (path : Datum) : Call Windows Path := do
  let home ← Act.view fun h => h.disk.home
  match path with
  | .text s =>
    let cs := expandFrom w.environment s.length s.toList
    Act.result (Path.expandHome home (Path.ofText (String.ofList cs)))
  | d => Act.result (Path.ofDatum d)

/-- Files of more bytes are not read. -/
def maxRead : Nat := 1024 * 1024

/-- The text of a small file, or null when it cannot be read. -/
def readText (w : WindowsAccess) (path : Datum) : Call Windows Datum := do
  let p ← w.expand path
  let reading : Act Disk Datum := do
    if !(← Disk.isFile p) then return .null
    let bytes ← Disk.readBytes p
    if bytes.length > maxRead then return .null
    return .text (← Act.result (Disk.textOf bytes))
  match ← (Host.onDisk reading).rescue (fun f => f.isSystem || f matches .utf8 _) with
  | .ok d => return d
  | .error _ => return .null

/-- Writes a file. -/
def putFile (w : WindowsAccess) (path content : Datum) (createDirectories : Bool) :
    Call Windows Unit := do
  let p ← w.expand path
  if createDirectories then Host.onDisk (Disk.makeDirs p.parent)
  match content with
  | .text s => Host.onDisk (Disk.writeText p s)
  | d => throw (.mistyped ("data must be str, not " ++ d.form))

/-- Removes a file, or a directory with everything below it. -/
def deletePath (w : WindowsAccess) (path : Datum) : Call Windows Unit := do
  let p ← w.expand path
  if ← Host.onDisk (Disk.isDir p) then Host.onDisk (Disk.removeTree p)
  else Host.onDisk (Disk.unlink p)

/-- Moves a file or directory. -/
def movePath (w : WindowsAccess) (source target : Datum) : Call Windows Unit := do
  let a ← w.expand source
  let b ← w.expand target
  Host.onDisk (Disk.move a b)

/-- Copies a file, or a directory with everything below it. -/
def copyPath (w : WindowsAccess) (source target : Datum) : Call Windows Unit := do
  let a ← w.expand source
  let b ← w.expand target
  if ← Host.onDisk (Disk.isDir a) then Host.onDisk (Disk.copyTree a b)
  else do
    Host.onDisk (Disk.makeDirs b.parent)
    Host.onDisk (Disk.copyFile a b)

/-- Whether something stands at a path. -/
def pathExists (w : WindowsAccess) (path : Datum) : Call Windows Bool := do
  let p ← w.expand path
  Host.onDisk (Disk.present p)

/-! ## Probe and mutator -/

/-- Carries out a change. -/
def perform (w : WindowsAccess) : (c : Write) → Call Windows c.Reply
  | .setValue hive path name value => do w.requireMutator; setValue hive path name value
  | .deleteValue hive path name => do w.requireMutator; deleteValue hive path name
  | .createKey hive path => do w.requireMutator; w.createKey hive path
  | .deleteKey hive path => do w.requireMutator; w.deleteKey hive path
  | .stopService service => do
    w.requireMutator; w.controlService "Stop-Service" "stop" " -Force" service
  | .startService service => do
    w.requireMutator; w.controlService "Start-Service" "start" "" service
  | .setStartup service startup => do w.requireMutator; w.setStartup service startup
  | .runScript script timeout elevated => do w.requireMutator; runScript script timeout elevated
  | .writeFile path content createDirectories => w.putFile path content createDirectories
  | .createDirectory path => do Host.onDisk (Disk.makeDirs (← w.expand path))
  | .deletePath path => w.deletePath path
  | .movePath source target => w.movePath source target
  | .copyPath source target => w.copyPath source target

/-- Reading a Windows. -/
def probe (w : WindowsAccess) : Probe Windows :=
  { readValue := w.readValue
    keyExists := w.keyExists
    queryService := w.queryService
    pathExists := w.pathExists
    runDiagnostic := w.runDiagnostic }

/-- Changing a Windows. -/
def mutator (w : WindowsAccess) : Mutator Windows :=
  { readValue := w.readValue
    keyExists := w.keyExists
    queryService := w.queryService
    pathExists := w.pathExists
    readText := w.readText
    write := w.perform }

end WindowsAccess

/-- The management interface that a value describes. -/
def Management.ofDatum : Option Datum → Management
  | some (.list items) => .services (items.map fun d =>
      { name := ((d.field? "name").getD .null).display
        state := (d.field? "state").getD .null
        mode := (d.field? "mode").getD .null })
  | some (.text _) => .broken
  | _ => .absent

end TweakEngine
