/-
# Trees of files described in JSON

A tree can be described by an object with the paths of files and directories.  A text
or bytes are the content of a file, and null stands for a directory.
-/

import TweakEngine.Datum.Number
import TweakEngine.Disk.Tree

namespace TweakEngine
namespace Disk

/-- Adds one file or directory, with the directories above it. -/
def plantOne (path : String) (content : Datum) : Act Disk Unit := do
  let p := Path.ofText path
  match content with
  | .null =>
    if ← isFile p then unlink p
    makeDirs p
  | content =>
    makeDirs p.parent
    match content with
    | .bytes bytes => writeBytes p bytes
    | content => writeText p content.display

/-- Adds files and directories. -/
def plant : List (String × Datum) → Act Disk Unit
  | [] => return
  | (path, content) :: rest => do
    plantOne path content
    plant rest

/-- The content of a file: a text, bytes that are no text, or just the size of a large one. -/
def contentDatum (limit : Nat) : Entry → Datum
  | .directory => .null
  | .file bytes =>
    if bytes.length > limit then .object [("bytes", .int bytes.length)]
    else match Encoding.decode bytes with
      | .ok s => .text s
      | .error _ => .bytes bytes

/-- What stands below the working directory; files of more than `limit` bytes show only
their size. -/
def describe (d : Disk) (limit : Nat) : List (String × Datum) :=
  (d.below d.here).map fun e => (e.1, contentDatum limit e.2)

/-- What is not as it was in an earlier tree, out of what stands below the working
directory. -/
def describeChanges (d earlier : Disk) (limit : Nat) : List (String × Datum) :=
  let known := earlier.describe limit
  (d.describe limit).filter fun e => match Assoc.get? e.1 known with
    | some content => !content.same e.2
    | none => true

end Disk
end TweakEngine
