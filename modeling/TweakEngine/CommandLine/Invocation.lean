/-
# Invocations

What a command line of the program asks for: options for the whole run, and a command
with its own options.  `Invocation.ofArguments` reads one.
-/

import TweakEngine.CommandLine.Reading
import TweakEngine.Config
import TweakEngine.Detection.Status
import TweakEngine.Journal

namespace TweakEngine
namespace CommandLine

/-- The value of an option: the option is not used, used without a value, or used. -/
inductive Setting (α : Type)
  | absent
  | blank
  | given (a : α)
  deriving Repr

namespace Setting

variable {α : Type}

/-- The value, if there is one. -/
def value? : Setting α → Option α
  | given a => some a
  | _ => none

/-- What an option that is used has for a value. -/
def ofUse : Option α → Setting α
  | some a => given a
  | none => blank

/-- The JSON form of a setting. -/
def toDatum (form : α → Datum) : Setting α → Datum
  | absent => .null
  | blank => .list []
  | given a => form a

end Setting

/-- Which tweaks are listed, by what is known of them. -/
inductive Wanted
  | applied | notApplied | unknown
  deriving DecidableEq, Repr

namespace Wanted

/-- The word for a choice. -/
def word : Wanted → String
  | applied => "applied"
  | notApplied => "not-applied"
  | unknown => "unknown"

/-- All choices. -/
def all : List Wanted := [applied, notApplied, unknown]

/-- Whether a status is as wanted. -/
def admits : Wanted → Status → Bool
  | applied, s => s.detectedApplied
  | notApplied, s => s.canDetect && !s.isApplied
  | unknown, s => !s.canDetect

end Wanted

/-- The options of listing tweaks. -/
structure Listing where
  category : Setting String := .absent
  status : Setting Wanted := .absent

/-- What is applied, and how. -/
structure Applying where
  ids : List String := []
  force : Bool := false
  yes : Bool := false
  restorePoint : Bool := false

/-- What is reverted, and how. -/
structure Reverting where
  ids : List String := []
  yes : Bool := false

/-- Where definitions are written, and which. -/
structure Exporting where
  path : Path := Path.ofText ""
  category : Setting String := .absent

/-- What is done with the configuration. -/
structure Configuring where
  create : Bool := false
  display : Bool := false

/-- The commands of the program. -/
inductive Command
  | list (options : Listing)
  | status (tweakId : String)
  | search (term : String)
  | categories
  | apply (options : Applying)
  | revert (options : Reverting)
  | recommend (limit : Setting Int)
  | exportTo (options : Exporting)
  | importFrom (path : Path)
  | info
  | config (options : Configuring)

/-- What a command line asks for. -/
structure Invocation where
  configFile : Setting Path := .absent
  verbosity : Nat := 0
  quiet : Bool := false
  json : Bool := false
  dryRun : Bool := false
  tweaks : Setting Path := .absent
  plain : Bool := false
  command : Option Command := none

/-- The name of a command. -/
def Command.name : Command → String
  | list _ => "list"
  | status _ => "status"
  | search _ => "search"
  | categories => "categories"
  | apply _ => "apply"
  | revert _ => "revert"
  | recommend _ => "recommend"
  | exportTo _ => "export"
  | importFrom _ => "import"
  | info => "info"
  | config _ => "config"

/-! ## Parts of grammars -/

/-- The option that shows the help. -/
def helpSwitch {σ : Type} : Switch σ := ⟨["-h", "--help"], .help, "show this help message and exit"⟩

/-- An option with a text for its value. -/
def textSwitch {σ : Type} (names : List String) (set : Setting String → σ → σ) (about : String) :
    Switch σ :=
  ⟨names, .value fun v s => .ok (set (.ofUse v) s), about⟩

/-- An option with a path for its value. -/
def pathSwitch {σ : Type} (names : List String) (set : Setting Path → σ → σ) (about : String) :
    Switch σ :=
  ⟨names, .value fun v s => .ok (set (.ofUse (v.map Path.ofText)) s), about⟩

/-- The refusal of a word that is none of the choices. -/
def noChoice (word : String) (choices : List String) : String :=
  "invalid choice: " ++ Text.quoted word ++ " (choose from " ++
    Text.join ", " (choices.map Text.quoted) ++ ")"

/-- An operand of one word. -/
def oneWord {σ : Type} (name : String) (set : String → σ → σ) (about : String) : Operand σ where
  name := name
  extent := .one
  about := about
  read words s := .ok (set (words.headD "") s, [])

/-- An operand of one word or several. -/
def someWords {σ : Type} (name : String) (set : List String → σ → σ) (about : String) :
    Operand σ where
  name := name
  extent := .several
  about := about
  read words s := .ok (set words s, [])

/-- The option that answers the question for a confirmation. -/
def yesSwitch {σ : Type} (set : σ → σ) : Switch σ :=
  ⟨["--yes", "-y"], .mark set, "Do not ask for confirmation"⟩

/-! ## The commands -/

/-- A command as a word of the command line: what follows is read by a grammar of its own. -/
structure Subcommand where
  name : String
  about : String
  read : List String → Except Stop (Command × List String)

/-- The name under which the program is called. -/
def program : String := "tweakd"

/-- A command with its own options. -/
def subcommand {σ : Type} (name about : String) (initial : σ) (wrap : σ → Command)
    (switches : List (Switch σ)) (operand : Option (Operand σ)) : Subcommand where
  name := name
  about := about
  read args := do
    let g : Grammar σ :=
      { program := program ++ " " ++ name, about, switches := helpSwitch :: switches, operand }
    let (options, extra) ← g.known args initial
    return (wrap options, extra)

/-- A command without options. -/
def bareSubcommand (name about : String) (command : Command) : Subcommand :=
  subcommand name about () (fun _ => command) [] none

/-- The option that wants tweaks with one status. -/
def statusSwitch : Switch Listing where
  names := ["--status", "-s"]
  about := "Filter by detected status"
  effect := .value fun v l => match v with
    | none => .ok { l with status := .blank }
    | some word => match Wanted.all.find? fun w => w.word = word with
      | some w => .ok { l with status := .given w }
      | none => .error (noChoice word (Wanted.all.map Wanted.word))

/-- The option that limits recommendations. -/
def limitSwitch : Switch (Setting Int) where
  names := ["--limit", "-n"]
  about := "Maximum number of recommendations"
  effect := .value fun v _ => match v with
    | none => .ok .blank
    | some word => match (Datum.text word).toInt with
      | .ok n => .ok (.given n)
      | .error _ => .error ("invalid int value: " ++ Text.quoted word)

/-- All commands. -/
def subcommands : List Subcommand :=
  [subcommand "list" "List tweaks with their status" {} .list
     [textSwitch ["--category", "-c"] (fun c l => { l with category := c })
        "Only show tweaks in this category",
      statusSwitch] none,
   subcommand "status" "Show one tweak and its status" "" .status []
     (some (oneWord "tweak_id" (fun id _ => id) "Tweak ID")),
   subcommand "search" "Search tweaks by name, description or tag" "" .search []
     (some (oneWord "term" (fun term _ => term) "Search term")),
   bareSubcommand "categories" "List tweak categories" .categories,
   subcommand "apply" "Apply tweaks" {} .apply
     [⟨["--force", "-f"], .mark fun a => { a with force := true },
        "Apply even if the tweak is detected as applied"⟩,
      yesSwitch fun a => { a with yes := true },
      ⟨["--restore-point"], .mark fun a => { a with restorePoint := true },
        "Create a System Restore point first"⟩]
     (some (someWords "tweak_ids" (fun ids a => { a with ids }) "Tweak IDs to apply")),
   subcommand "revert" "Revert tweaks" {} .revert
     [yesSwitch fun r => { r with yes := true }]
     (some (someWords "tweak_ids" (fun ids r => { r with ids }) "Tweak IDs to revert")),
   subcommand "recommend" "Show recommended tweaks" (.given 10) .recommend [limitSwitch] none,
   subcommand "export" "Export tweak definitions" {} .exportTo
     [textSwitch ["--category", "-c"] (fun c e => { e with category := c })
        "Only export this category"]
     (some (oneWord "path" (fun path e => { e with path := Path.ofText path }) "Output file")),
   subcommand "import" "Import tweak definitions" (Path.ofText "") .importFrom []
     (some (oneWord "path" (fun path _ => Path.ofText path) "Exported file to import")),
   bareSubcommand "info" "Show system information" .info,
   subcommand "config" "Manage configuration" {} .config
     [⟨["--init"], .mark fun c => { c with create := true },
        "Create default configuration file"⟩,
      ⟨["--show"], .mark fun c => { c with display := true }, "Show current configuration"⟩]
     none]

/-- The word for a command, and what follows it. -/
def commandOperand : Operand Invocation where
  name := "command"
  extent := .rest
  required := false
  about := Text.join ", " (subcommands.map Subcommand.name)
  read words i :=
    let name := words.headD ""
    match subcommands.find? fun s => s.name = name with
    | none => .error (.about (noChoice name (subcommands.map Subcommand.name)))
    | some s => match s.read (words.drop 1) with
      | .ok (command, extra) => .ok ({ i with command := some command }, extra)
      | .error stop => .error (.stopped stop)

namespace Invocation

/-- The grammar of whole command lines. -/
def grammar : Grammar Invocation where
  program := program
  about := "Detect, apply and revert Windows tweaks"
  operand := commandOperand
  switches :=
    [helpSwitch,
     ⟨["--version"], .shown (program ++ " " ++ appVersion ++ "\n"),
       "show program's version number and exit"⟩,
     pathSwitch ["--config"] (fun p i => { i with configFile := p }) "Path to configuration file",
     ⟨["--verbose", "-v"], .mark fun i => { i with verbosity := i.verbosity + 1 },
       "Increase verbosity (use -vv for debug)"⟩,
     ⟨["--quiet", "-q"], .mark fun i => { i with quiet := true }, "Suppress console logging"⟩,
     ⟨["--json"], .mark fun i => { i with json := true }, "Output results as JSON"⟩,
     ⟨["--dry-run"], .mark fun i => { i with dryRun := true },
       "Show what would change without changing anything"⟩,
     pathSwitch ["--tweaks-dir"] (fun p i => { i with tweaks := p })
       "Directory containing tweak definition files",
     ⟨["--no-color"], .mark fun i => { i with plain := true }, "Disable colored output"⟩]

/-- What the words of a command line ask for. -/
def ofArguments (args : List String) : Except Stop Invocation := grammar.read args {}

/-- The level of the messages that are shown. -/
def threshold (i : Invocation) : Level :=
  if 2 ≤ i.verbosity then .debug else if 1 ≤ i.verbosity then .info else .warning

/-- How messages are kept in a run. -/
def journal (i : Invocation) : Journal := ⟨i.threshold, !i.quiet⟩

end Invocation

/-- The options of a command in JSON. -/
def Command.fields : Command → List (String × Datum)
  | list l =>
    [("category", l.category.toDatum .text), ("status", l.status.toDatum fun w => .text w.word)]
  | status id => [("tweak_id", .text id)]
  | search term => [("term", .text term)]
  | categories | info => []
  | apply a =>
    [("tweak_ids", .list (a.ids.map .text)), ("force", .bool a.force), ("yes", .bool a.yes),
     ("restore_point", .bool a.restorePoint)]
  | revert r => [("tweak_ids", .list (r.ids.map .text)), ("yes", .bool r.yes)]
  | recommend limit => [("limit", limit.toDatum .int)]
  | exportTo e => [("path", .text e.path.text), ("category", e.category.toDatum .text)]
  | importFrom path => [("path", .text path.text)]
  | config c => [("init", .bool c.create), ("show", .bool c.display)]

/-- The JSON form of an invocation. -/
def Invocation.toDatum (i : Invocation) : Datum :=
  let path (p : Setting Path) : Datum := p.toDatum fun p => .text p.text
  .object (
    [("config", path i.configFile), ("verbose", .int i.verbosity), ("quiet", .bool i.quiet),
     ("json", .bool i.json), ("dry_run", .bool i.dryRun), ("tweaks_dir", path i.tweaks),
     ("no_color", .bool i.plain),
     ("command", .ofText? (i.command.map Command.name))] ++
    (i.command.map Command.fields).getD [])

end CommandLine
end TweakEngine
