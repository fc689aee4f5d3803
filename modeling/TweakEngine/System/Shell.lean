/-
# Commands of the platform

A command is run as a process with a time limit, and what it gave is its success and
its trimmed output, or the reason why it failed.
-/

import TweakEngine.System.Host

namespace TweakEngine

/-- What a command gave. -/
structure ShellResult where
  success : Bool
  output : String := ""
  error : String := ""
  deriving DecidableEq, Repr

namespace Host

variable {μ : Type}

/-- The trimmed text that a process wrote, if it could be read. -/
def written : Option String → Except Failure String
  | some s => .ok (Text.trim s)
  | none => .error (Failure.lacks .null "strip")

/-- Runs a command.  What it wrote as an error counts only when it did not succeed. -/
def command (argv : List Datum) (timeout : Datum) : Call μ ShellResult := do
  match ← run argv timeout with
  | .ended code stdout stderr =>
    let output ← Act.result (written stdout)
    let error ← if code = 0 then pure "" else Act.result (written stderr)
    return { success := code == 0, output, error }
  | .timedOut _ => return { success := false, error := "Command timed out" }
  | .failed e => return { success := false, error := e.message }

/-- Runs a command of the platform's shell. -/
def shell (text : String) (timeout : Datum) : Call μ ShellResult :=
  command (["powershell.exe", "-NoProfile", "-Command", text].map .text) timeout

end Host

/-- A text as a literal of the platform's shell: quotes are written twice. -/
def shellQuoted (s : String) : String :=
  "'" ++ String.ofList (s.toList.flatMap fun c => if c = '\'' then ['\'', '\''] else [c]) ++ "'"

end TweakEngine
