/-
# The journal

Messages are kept in three records: actions and verdicts have one each, and everything
else goes to the main one and, if wanted, to the console.  Who speaks decides where a
message goes; a message below the threshold is dropped.
-/

import TweakEngine.System.Host

namespace TweakEngine

/-- The records of a journal. -/
inductive Journal.Channel
  | main | actions | detection
  deriving DecidableEq, Repr

/-- How messages are kept. -/
structure Journal where
  threshold : Level := .info
  console : Bool := true

namespace Journal

/-- The name by which a record is asked for, as a speaker. -/
def speakerOf (name : String) : String := if name = "main" then "tweakd" else "tweakd." ++ name

/-- Whether a speaker is another one or speaks for it. -/
def speaksFor (top speaker : String) : Bool :=
  speaker == top || (top ++ ".").toList.isPrefixOf speaker.toList

/-- The record for a speaker. -/
def channelOf (speaker : String) : Channel :=
  if speaksFor "tweakd.actions" speaker then .actions
  else if speaksFor "tweakd.detection" speaker then .detection
  else .main

/-- The file of a record. -/
def Channel.file : Channel → String
  | main => "main.log"
  | actions => "actions.log"
  | detection => "detection.log"

/-- Whether a message is kept.  A threshold of zero leaves it to the usual one, which is
a warning, and only levels above zero are kept at all. -/
def admits (j : Journal) (l : Level) : Bool :=
  let least := if j.threshold.number = 0 then Level.warning.number else j.threshold.number
  0 < l.number && least ≤ l.number

/-- A message in its record, without the time and the place that say when and where it
was kept. -/
def entry (m : Message) : String :=
  let level := m.level.name ++ String.ofList (List.replicate (8 - m.level.name.length) ' ')
  let source := match channelOf m.speaker with
    | .main => m.speaker
    | .actions => "ACTION"
    | .detection => "DETECT"
  level ++ " | " ++ source ++ " | " ++ m.text

/-- A message on the console; `trace` shows the failure that it is about. -/
def consoleText (trace : Failure → String) (m : Message) : String :=
  m.level.name ++ ": " ++ m.text ++ "\n" ++ (m.failure.map fun f => trace f ++ "\n").getD ""

/-- Whether a message is shown on the console. -/
def shows (j : Journal) (m : Message) : Bool :=
  j.console && j.admits m.level && channelOf m.speaker == .main

/-- What a program writes to the console for errors, out of what happened in order. -/
def errorOutput (j : Option Journal) (trace : Failure → String) (events : List Event) : String :=
  String.join (events.map fun e => match e, j with
    | .said m, some j => if j.shows m then consoleText trace m else ""
    | .complained text, _ => text
    | _, _ => "")

/-- The messages in a list of events. -/
def messages (events : List Event) : List Message :=
  events.filterMap fun e => match e with
    | .said m => some m
    | _ => none

/-- The entries of a record. -/
def entries (j : Journal) (c : Channel) (ms : List Message) : List String :=
  (ms.filter fun m => j.admits m.level && channelOf m.speaker == c).map entry

/-- All records. -/
def channels : List Channel := [.main, .actions, .detection]

/-- The files of all records with what is added to them. -/
def pages (j : Journal) (events : List Event) : List (String × List String) :=
  channels.map fun c => (c.file, j.entries c (messages events))

/-- Adds a text to the end of a file. -/
def append (p : Path) (text : String) : Act Disk Unit := do
  let old ← if ← Disk.isFile p then Disk.readBytes p else pure []
  Disk.writeBytes p (old ++ Encoding.utf8 text)

/-- Opens the files of all records in a directory. -/
def openIn (directory : Path) : Act Disk Unit := do
  Disk.makeDirs directory
  for c in channels do
    append (directory.child c.file) ""

/-- A message in the file of its record, with the time and the failure. -/
def line (trace : Failure → String) (m : Message) : String :=
  m.time.stamp ++ " | " ++ entry m ++ "\n" ++ (m.failure.map fun f => trace f ++ "\n").getD ""

/-- Writes messages to the files of their records. -/
def keep (j : Journal) (trace : Failure → String) (directory : Path) (events : List Event) :
    Act Disk Unit := do
  for m in messages events do
    if j.admits m.level then
      append (directory.child (channelOf m.speaker).file) (line trace m)

end Journal
end TweakEngine
