/-
# The commands

What each command of the program does: it asks the service and prints a report, for a
reader or for a program.  A command gives the exit code of the program.
-/

import TweakEngine.CommandLine.Invocation
import TweakEngine.Report.Json
import TweakEngine.Report.Text

namespace TweakEngine
namespace CommandLine

/-- What a run of the program works with, and what is typed during it. -/
structure Console (μ : Type) where
  world : Surroundings μ
  platform : Platform
  /-- What is typed, if nothing interrupts it. -/
  typed : Option String := some ""
  /-- Whether the output goes to a terminal. -/
  terminal : Bool := false

/-- Reports for a reader or for a program. -/
inductive Reporter
  | text (r : TextReport)
  | json (r : JsonReport)

namespace Reporter

/-- The reports that an invocation wants. -/
def ofInvocation (i : Invocation) (config : Config) (terminal : Bool) : Reporter :=
  if i.json then json {}
  else text ⟨config.display.useColors.truthy && terminal, 0 < i.verbosity⟩

/-- Whether reports are for a program. -/
def isJson : Reporter → Bool
  | json _ => true
  | text _ => false

/-- A tweak with its status. -/
def tweak : Reporter → Tweak → Status → Except Failure String
  | text r, t, s => r.tweak t s
  | json r, t, s => r.tweak t s

/-- Tweaks with their statuses. -/
def list : Reporter → List Item → Except Failure String
  | text r, items => r.list items
  | json r, items => .ok (r.list items)

/-- The results of a batch. -/
def results : Reporter → Action → Assoc String Result → String
  | text r, action, xs => r.results action xs
  | json r, action, xs => r.results action xs

/-- Categories. -/
def categories : Reporter → List Datum → String
  | text _, cs => TextReport.categories cs
  | json r, cs => r.categories cs

end Reporter

namespace Console

open Program

variable {μ : Type}

/-- Prints a text. -/
def print (text : String) : Task μ Unit := onHost (Host.record (.printed text))

/-- Prints a line. -/
def printLine (text : String) : Task μ Unit := print (text ++ "\n")

/-- Prints a report that may fail. -/
def printReport (report : Except Failure String) : Task μ Int := do
  printLine (← report)
  return 0

/-- The configuration as it is now. -/
def config : Task μ Config := Act.view Program.config

/-- A line that is typed. -/
def readLine (c : Console μ) : Except Failure String :=
  match c.typed with
  | none => .error .interrupted
  | some "" => .error .endOfInput
  | some s => .ok (String.ofList (s.toList.takeWhile (· != '\n')))

/-- Asks whether to go on, unless that is settled. -/
def confirm (c : Console μ) (settled : Bool) : Task μ Bool := do
  let config ← config
  if settled || !config.display.confirm.truthy || config.execution.dryRun.truthy then return true
  print "\nProceed? [y/N] "
  onHost (Host.record .asked)
  return Text.lowerWord (Text.trim (← c.readLine)) = "y"

/-- Shows how far a batch has come. -/
def showProgress (p : Progress) : Task μ Unit :=
  onHost (Host.record (.complained (TextReport.progress p ++ "\n")))

/-- What a batch reports to. -/
def control (r : Reporter) : Control μ :=
  { sink := if r.isJson then none else some showProgress }

/-- The exit code for results. -/
def exitCode (results : Assoc String Result) : Int :=
  if results.all fun e => e.2.clean then 0 else 1

/-- Whether the category of a tweak is the wanted one; without a wanted one all are. -/
def inCategory (wanted : Setting String) (t : Tweak) : Except Failure Bool := do
  match wanted with
  | .given name =>
    if name = "" then return true else return (← Catalog.foldedField t.category) == Text.fold name
  | _ => return true

/-- Lists tweaks. -/
def list (s : Service μ) (r : Reporter) (l : Listing) : Task μ Int := do
  let items ← (← s.items).filterM fun i => inCategory l.category i.tweak
  let items := match l.status with
    | .given w => items.filter fun i => w.admits i.status
    | _ => items
  printReport (r.list items)

/-- Shows one tweak. -/
def status (s : Service μ) (r : Reporter) (tweakId : String) : Task μ Int := do
  match ← Service.find? tweakId with
  | none =>
    printLine ("Error: Tweak not found: " ++ tweakId)
    return 1
  | some t => printReport (r.tweak t (← s.statusOf t.id))

/-- Lists those of some tweaks that are not hidden. -/
def listThese (s : Service μ) (r : Reporter) (tweaks : List Tweak) : Task μ Int := do
  let keys := tweaks.map Tweak.key
  printReport (r.list ((← s.items).filter fun i => keys.contains i.tweak.key))

/-- Says what is going to be applied. -/
def announce (ids : List String) : Task μ Unit := do
  printLine ("\nAbout to apply " ++ toString ids.length ++ " tweak(s):")
  for id in ids do
    let name := ((← Service.find? id).map fun t => t.name.display).getD id
    printLine ("  - " ++ name ++ " (" ++ id ++ ")")
  if (← config).execution.dryRun.truthy then printLine "\n[DRY RUN] No changes will be made."

/-- Applies tweaks. -/
def apply (c : Console μ) (s : Service μ) (r : Reporter) (a : Applying) : Task μ Int := do
  if a.restorePoint then
    Act.change fun p => { p with config.execution.createRestorePoint := .bool true }
  if !r.isJson then announce a.ids
  if !(← c.confirm (a.yes || r.isJson)) then
    printLine "Cancelled."
    return 0
  let results ← s.apply a.ids (control r) a.force
  printLine (r.results .apply results)
  return exitCode results

/-- Reverts tweaks. -/
def revert (c : Console μ) (s : Service μ) (r : Reporter) (v : Reverting) : Task μ Int := do
  if !r.isJson then
    printLine ("\nAbout to revert " ++ toString v.ids.length ++ " tweak(s): " ++
      Text.join ", " v.ids)
  if !(← c.confirm (v.yes || r.isJson)) then
    printLine "Cancelled."
    return 0
  let results ← s.revert v.ids (control r)
  printLine (r.results .revert results)
  return exitCode results

/-- The recommended tweaks.  A limit without a value cannot be compared with a count. -/
def recommended (s : Service μ) (limit : Setting Int) : Task μ (List Tweak) := do
  match limit with
  | .given n => s.recommended n
  | _ =>
    match (← s.items).find? fun i => !i.status.detectedApplied with
    | none => return []
    | some i =>
      discard (Service.isRecommended i.tweak)
      throw (.mistyped "'>=' not supported between instances of 'int' and 'list'")

/-- Writes definitions to a file. -/
def exportTo (e : Exporting) : Task μ Int := do
  let tweaks ← (← Service.tweaks).filterM fun t => inCategory e.category t
  let count ← Service.exportTo e.path tweaks
  printLine ("Exported " ++ toString count ++ " tweaks to " ++ e.path.text)
  return 0

/-- The failures that mean that a file holds no definitions. -/
def isImportFault (f : Failure) : Bool := f.isSystem || f.isValue || (f matches .malformed _)

/-- Takes definitions from a file over into the catalog. -/
def importFrom (path : Path) : Task μ Int := do
  match ← (Service.importFrom path).rescue isImportFault with
  | .error f =>
    printLine ("Error: Could not import " ++ path.text ++ ": " ++ f.message)
    return 1
  | .ok tweaks =>
    let target := (← config).tweaks.child ("imported_" ++ path.stem ++ ".json")
    onHost (Catalog.writeTo tweaks target)
    printLine ("Imported " ++ toString tweaks.length ++ " tweaks to " ++ target.text)
    return 0

/-- A name with blanks between its words, and with capitals. -/
def heading (name : String) : String :=
  Text.join " " ((Text.splitOnChar '_' name).map String.capitalize)

/-- Shows facts about the system. -/
def info (c : Console μ) (s : Service μ) (r : Reporter) : Task μ Int := do
  let facts ← s.info c.platform
  match r, facts with
  | .json r, _ => printLine (r.datum facts)
  | _, .object fields =>
    for (name, value) in fields do
      printLine (TextReport.padded 18 (heading name) ++ " " ++ value.display)
  | _, _ => return 0
  return 0

/-- Writes or shows the configuration. -/
def configure (file : Setting Path) (o : Configuring) : Task μ Int := do
  let config ← config
  if o.create then
    if file matches .blank then throw (Failure.lacks (.list []) "parent")
    onDisk (config.save file.value?)
    let shown := file.value?.getD (config.directory.child "config.json")
    printLine ("Configuration saved to " ++ shown.text)
    return 0
  if o.display then
    printLine (JsonReport.datum {} config.toDatum)
    return 0
  printLine "Use --init to create config or --show to display current config"
  return 1

/-- Carries out a command with a service. -/
def serve (c : Console μ) (s : Service μ) (r : Reporter) : Command → Task μ Int
  | .list l => list s r l
  | .status id => status s r id
  | .search term => do listThese s r (← Service.search term)
  | .categories => do printReport (.ok (r.categories (← Service.categories)))
  | .apply a => c.apply s r a
  | .revert v => c.revert s r v
  | .recommend limit => do listThese s r (← recommended s limit)
  | .exportTo e => exportTo e
  | .importFrom path => importFrom path
  | .info => c.info s r
  | .config _ => return 0

/-- Carries out a command. -/
def perform (c : Console μ) (i : Invocation) (command : Command) : Task μ Int := do
  match command with
  | .config o => configure i.configFile o
  | command =>
    let s ← Service.start c.world
    c.serve s (.ofInvocation i (← config) c.terminal) command

end Console
end CommandLine
end TweakEngine
