/-
# Processes

What a process that was run answers: that it ended, that its time was up, or that it
could not be started.  `Answer.ofDatum` reads an answer that is described in JSON.
-/

import TweakEngine.System.Access

namespace TweakEngine

/-- The answer of a process that was run. -/
inductive Answer
  | ended (exitCode : Int) (stdout stderr : Option String)
  /-- Stopped for lack of time, with the text or the bytes that it had written, if any. -/
  | timedOut (stdout : Datum)
  | failed (e : SystemError)

namespace Answer

/-- A process that ends well and writes nothing. -/
def quiet : Answer := ended 0 (some "") (some "")

/-- The bytes of a text of hexadecimal digits. -/
def bytesOfHex (d : Datum) : Datum :=
  match d with
  | .text s => .bytes ((Encoding.ofHexChars s.toList).getD [])
  | d => d

/-- An answer out of its JSON form. -/
def ofDatum (d : Datum) : Answer :=
  let text (key : String) : Option String := ((d.field? key).getD (.text "")).text?
  match d.field? "raise" with
  | some (.text "TimeoutExpired") =>
    let written := (d.field? "stdout").getD .null
    let asBytes := ((d.field? "bytes").map Datum.truthy).getD false
    timedOut (if asBytes then bytesOfHex written else written)
  | some (.text "FileNotFoundError") => failed (.stated .notFound "not found")
  | some _ => failed (.stated .other "process failed")
  | none =>
    let exitCode := match d.field? "exit" with
      | some (.int n) => n
      | _ => 0
    ended exitCode (text "stdout") (text "stderr")

end Answer
end TweakEngine
