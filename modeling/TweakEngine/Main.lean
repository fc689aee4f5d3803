/-
# The program

Runs a command line on the files of the computer.  The files that a command line can reach
are read into a tree, the run is computed on it, and what it changed is written back.  A
run that awaits an answer is computed again when the answer has been typed.  The registry,
services and scripts are out of reach from here and refuse every call.
-/

import TweakEngine.CommandLine.Console
import TweakEngine.System.Windows

namespace TweakEngine
namespace CommandLine

/-- The path of a location. -/
def pathOf (loc : List String) : String := "/" ++ Text.join "/" loc

/-- The location of a path. -/
def locationOf (here : List String) (p : Path) : List String := (p.resolved here).parts

/-- The names in a directory, if there is one at a location. -/
def namesAt (loc : List String) : IO (Option (List String)) := do
  match ← ((← IO.currentDir) / pathOf loc).readDir.toBaseIO with
  | Except.ok children => return some (children.toList.map fun c => c.fileName)
  | Except.error _ => return none

/-- The entries at and below a location. -/
partial def entriesAt (loc : List String) : IO (Assoc (List String) Entry) := do
  match ← namesAt loc with
  | some names =>
    let below ← names.mapM fun name => entriesAt (loc ++ [name])
    return (loc, .directory) :: below.flatten
  | none =>
    match ← (IO.FS.readBinFile (pathOf loc)).toBaseIO with
    | Except.ok bytes => return [(loc, .file bytes.toList)]
    | Except.error _ => return []

/-- Reads what stands at a location into a tree, with the directories above it. -/
def fetch (d : Disk) (loc : List String) : IO Disk := do
  let mut entries := d.entries
  for n in List.range loc.length do
    let above := loc.take n
    if above ≠ [] && (← namesAt above).isSome then
      entries := Assoc.put above .directory entries
  for (at_, e) in ← entriesAt loc do
    entries := Assoc.put at_ e entries
  return { d with entries }

/-- The paths that a command names. -/
def Command.paths : Command → List Path
  | exportTo e => [e.path]
  | importFrom p => [p]
  | _ => []

/-- The files that an invocation can reach. -/
def reachable (home here : String) (i : Invocation) : IO Disk := do
  let locOf (s : String) : List String := (Path.ofText s).parts
  let d : Disk := { entries := [(locOf here, .directory)], here := locOf here, home }
  let d ← fetch d (locationOf d.here (i.configFile.value?.getD (Config.defaultFile home)))
  let directories := match (Console.configured i).on d with
    | (.ok c, _) => [c.directory, c.tweaks, c.snapshots, c.logs]
    | _ => []
  let named := (i.command.map Command.paths).getD []
  (directories ++ named).foldlM (fun d p => fetch d (locationOf d.here p)) d

/-- Writes back what differs between two trees. -/
def writeBack (old new : Disk) : IO Unit := do
  for (loc, _) in old.entries.reverse do
    if (new.at? loc).isNone then
      if let some (.file _) := old.at? loc then IO.FS.removeFile (pathOf loc)
      else IO.FS.removeDirAll (pathOf loc)
  for (loc, e) in new.entries do
    if old.at? loc ≠ some e then
      match e with
      | .directory => IO.FS.createDirAll (pathOf loc)
      | .file bytes => IO.FS.writeBinFile (pathOf loc) ⟨bytes.toArray⟩

/-- The time at which a new file is made. -/
def present : IO Moment := do
  let (_, file) ← IO.FS.createTempFile
  let time := (← file.metadata).modified
  IO.FS.removeFile file
  return ⟨time.sec * Moment.second + time.nsec.toNat / 1000⟩

/-- Runs a command line on a tree, asking for an answer if one is awaited. -/
def converse (c : Console Windows) (args : List String) (h : Host Windows) :
    IO (Transcript × Host Windows) := do
  let trace (f : Failure) : String := "Failure: " ++ f.message
  let (t, h') := c.run trace args h
  match t.question with
  | none =>
    IO.print t.output
    return (t, h')
  | some question =>
    IO.print question
    (← IO.getStdout).flush
    let typed ← (← IO.getStdin).getLine
    let (t, h') := { c with typed := some typed }.run trace args h
    IO.print (String.ofList (t.output.toList.drop question.length))
    return (t, h')

end CommandLine
end TweakEngine

open TweakEngine CommandLine in
/-- Runs the program. -/
def main (args : List String) : IO UInt32 := do
  let home := (← IO.getEnv "HOME").getD "/"
  let here := (← IO.currentDir).toString
  let disk ← match Invocation.ofArguments args with
    | .ok i => reachable home here i
    | .error _ => pure {}
  let access : WindowsAccess := { available := false, environment := [("HOME", home)] }
  let console : Console Windows :=
    { world := { probe := access.probe, mutator := access.mutator, elevated := false }
      platform := { name := "linux", architecture := "", interpreter := "none" }
      terminal := ← (← IO.getStdout).isTty }
  let (t, h) ← converse console args { machine := {}, disk, clock := ← present }
  IO.eprint t.errors
  writeBack disk h.disk
  match t.exit with
  | .ok code => return code.toNat.toUInt32
  | .error f =>
    IO.eprintln ("Error: " ++ f.message)
    return 1
