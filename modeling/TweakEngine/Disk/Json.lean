/-
# JSON files

A JSON value is read from a file of text and written back with one item on each line.
-/

import TweakEngine.Disk.Tree
import TweakEngine.Json.Reader
import TweakEngine.Json.Writer

namespace TweakEngine
namespace Disk

/-- The JSON value in a file. -/
def readJson (p : Path) : Act Disk Datum := do
  Act.result (Json.read (← readText p))

/-- Writes a JSON value to a file.  A value without a form in JSON is refused and leaves
an empty file. -/
def writeJson (p : Path) (d : Datum) : Act Disk Unit :=
  match Json.foreign? d with
  | none => writeText p (Json.write Json.fileLayout d)
  | some x => do
    writeText p ""
    throw (.mistyped ("Object of type " ++ x.form ++ " is not JSON serializable"))

end Disk
end TweakEngine
