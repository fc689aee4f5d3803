/-
# Runs of the program

`Console.run` carries out a command line from its words to the exit code.  The
configuration is read first, then the journal is opened and the directories are made.
A command that fails is reported in one line and in the journal; a failure before the
command ends the run.
-/

import TweakEngine.CommandLine.Commands

namespace TweakEngine
namespace CommandLine

/-- What a run of the program showed, and how it ended. -/
structure Transcript where
  exit : Except Failure Int
  output : String
  errors : String
  /-- What it showed up to the first answer that it awaited. -/
  question : Option String := none

/-- What was printed. -/
def printed (events : List Event) : String :=
  String.join (events.map fun e => match e with
    | .printed text => text
    | _ => "")

namespace Console

variable {μ : Type}

/-- The configuration with what the invocation says about it. -/
def configured (i : Invocation) : Act Disk Config := do
  let config ← Config.load i.configFile.value?
  let config ← match i.tweaks with
    | .given p =>
      if p.text.toList.contains (Char.ofNat 0) then throw (.badValue "embedded null byte")
      pure { config with tweaks := p.resolved (← Act.view Disk.here) }
    | _ => pure config
  let config := if i.dryRun then { config with execution.dryRun := .bool true } else config
  return if i.plain then { config with display.useColors := .bool false } else config

/-- Reports that a command failed. -/
def concede (command : Command) (f : Failure) : Call μ Int := do
  let answer (text : String) : Call μ Unit := Host.record (.printed (text ++ "\n"))
  match f with
  | .interrupted => answer "\nInterrupted."
  | .system e =>
    if e.kind ≠ .notFound then note
    answer ("Error: " ++ f.message)
  | _ =>
    note
    answer ("Error: " ++ f.message)
  return 1
where
  /-- Puts the failure on record. -/
  note : Call μ Unit := Host.report
    { level := .error
      speaker := Service.speaker
      text := "Command '" ++ command.name ++ "' failed"
      failure := some f }

/-- Carries out an invocation; `trace` is how failures look in the journal. -/
def invoke (c : Console μ) (trace : Failure → String) (i : Invocation) : Call μ Int := do
  let config ← Host.onDisk (configured i)
  Host.onDisk (Journal.openIn config.logs)
  Host.onDisk config.ensureDirectories
  match i.command with
  | none =>
    Host.record (.printed Invocation.grammar.help)
    return 0
  | some command =>
    let code ← Act.of fun h =>
      let (r, p) := (c.perform i command).on (.idle config (Service.folderOf config) h)
      (.ok r, p.session.host)
    let code ← match code with
      | .ok code => pure code
      | .error f => concede command f
    let events ← Act.view fun h => h.trail.reverse
    discard (Host.onDisk (i.journal.keep trace config.logs events)).attempt
    return code

/-- Runs the program on a host; the trail shows what it did. -/
def run (c : Console μ) (trace : Failure → String) (args : List String) (h : Host μ) :
    Transcript × Host μ :=
  let h := { h with trail := [] }
  match Invocation.ofArguments args with
  | .error (.shown text) => ({ exit := .ok 0, output := text, errors := "" }, h)
  | .error (.refused program usage text) =>
    ({ exit := .ok 2
       output := ""
       errors := usage ++ program ++ ": error: " ++ text ++ "\n" }, h)
  | .ok i =>
    let (exit, h) := (c.invoke trace i).on h
    let events := h.trail.reverse
    let before := events.takeWhile fun e => !(e matches .asked)
    ({ exit
       output := printed events
       errors := Journal.errorOutput i.journal trace events
       question := if before.length = events.length then none else some (printed before) }, h)

end Console
end CommandLine
end TweakEngine
