/-
# A tree of files

The disk is a table from locations to entries; a location is the list of parts from the
root, and the root is always a directory.  `Disk.locate` follows a path through
existing directories.  The actions below it read and write one entry each; `makeDirs`,
`removeTree`, `move` and `copy` are built from them.
-/

import TweakEngine.Act
import TweakEngine.Disk.Path

namespace TweakEngine

/-- What stands at a location. -/
inductive Entry
  | directory
  | file (bytes : List UInt8)
  deriving DecidableEq, Repr

/-- A tree of files with a working directory and a home. -/
structure Disk where
  entries : Assoc (List String) Entry := []
  here : List String := []
  home : String := "/"

namespace Disk

/-- The entry at a location. -/
def at? (d : Disk) (loc : List String) : Option Entry :=
  if loc = [] then some .directory else Assoc.get? loc d.entries

/-- The longest name of an entry in bytes. -/
def maxName : Nat := 255

/-- The longest path in bytes. -/
def maxPath : Nat := 4095

/-- Follows parts from a location; the last part need not exist. -/
def follow (d : Disk) : List String → List String → Except SystemErrorKind (List String)
  | loc, [] => .ok loc
  | loc, name :: rest =>
    match d.at? loc with
    | none => .error .notFound
    | some (.file _) => .error .notDirectory
    | some .directory =>
      if name = ".." then follow d loc.dropLast rest
      else if (Encoding.utf8 name).length > maxName then .error .nameTooLong
      else follow d (loc ++ [name]) rest

/-- The location of a path. -/
def locate (d : Disk) (p : Path) : Except Failure (List String) :=
  if p.text.toList.contains (Char.ofNat 0) then .error (.badValue "embedded null byte")
  else if (Encoding.utf8 p.text).length > maxPath then
    .error (.system (.onPath .nameTooLong p.text))
  else
    (d.follow (if p.isAbsolute then [] else d.here) p.parts).mapError fun k =>
      .system (.onPath k p.text)

/-- The entry at a path, if there is one; a path that cannot exist has none. -/
def look (d : Disk) (p : Path) : Except Failure (Option Entry) :=
  match d.locate p with
  | .ok loc => .ok (d.at? loc)
  | .error (.badValue _) => .ok none
  | .error (.system e) =>
    if e.kind = .notFound ∨ e.kind = .notDirectory then .ok none else .error (.system e)
  | .error f => .error f

/-- Whether something stands at a path. -/
def present (p : Path) : Act Disk Bool :=
  Act.of fun d => ((d.look p).map Option.isSome, d)

/-- Whether a directory stands at a path. -/
def isDir (p : Path) : Act Disk Bool :=
  Act.of fun d => ((d.look p).map (· == some .directory), d)

/-- Whether a file stands at a path. -/
def isFile (p : Path) : Act Disk Bool :=
  Act.of fun d => ((d.look p).map fun e => e matches some (.file _), d)

/-- Refuses with an error about a path. -/
def refuse {α : Type} (kind : SystemErrorKind) (p : Path) : Act Disk α :=
  throw (.system (.onPath kind p.text))

/-- The location of a path, as an action. -/
def locating (p : Path) : Act Disk (List String) :=
  Act.of fun d => (d.locate p, d)

/-- The bytes of a file. -/
def readBytes (p : Path) : Act Disk (List UInt8) := do
  let loc ← locating p
  match ← Act.view fun d => d.at? loc with
  | some (.file bytes) => return bytes
  | some .directory => refuse .isDirectory p
  | none => refuse .notFound p

/-- The text of bytes; line ends are unified. -/
def textOf (bytes : List UInt8) : Except Failure String :=
  match Encoding.decode bytes with
  | .ok s => .ok (String.ofList (Encoding.unifyLineEnds s.toList))
  | .error e => .error (.utf8 e)

/-- The text of a file. -/
def readText (p : Path) : Act Disk String := do
  Act.result (textOf (← readBytes p))

/-- Puts an entry at a location. -/
def put (loc : List String) (e : Entry) : Act Disk Unit :=
  Act.change fun d => { d with entries := Assoc.put loc e d.entries }

/-- The location where a file may be written: its directory exists. -/
def writable (p : Path) : Act Disk (List String) := do
  let loc ← locating p
  match ← Act.view fun d => d.at? loc with
  | some .directory => refuse .isDirectory p
  | _ => return loc

/-- Writes bytes to a file, which need not exist. -/
def writeBytes (p : Path) (bytes : List UInt8) : Act Disk Unit := do
  put (← writable p) (.file bytes)

/-- Writes a text to a file. -/
def writeText (p : Path) (s : String) : Act Disk Unit := writeBytes p (Encoding.utf8 s)

/-- Makes a directory in an existing one. -/
def makeDir (p : Path) : Act Disk Unit := do
  let loc ← locating p
  match ← Act.view fun d => d.at? loc with
  | some _ => refuse .exists p
  | none => put loc .directory

/-- Makes a directory and those above it, at most `depth` of them; one that exists is kept. -/
def makeDirsWithin : Nat → Path → Act Disk Unit
  | depth, p => do
    match ← (makeDir p).attempt with
    | .ok () => return
    | .error (.system e) =>
      if e.kind = .notFound then
        match depth with
        | 0 => throw (.system e)
        | depth + 1 =>
          if p.parent = p then throw (.system e)
          else
            makeDirsWithin depth p.parent
            makeDirKept p
      else if ← isDir p then return
      else throw (.system e)
    | .error f => throw f
where
  /-- Makes a directory, or keeps it. -/
  makeDirKept (p : Path) : Act Disk Unit := do
    match ← (makeDir p).attempt with
    | .ok () => return
    | .error (.system e) =>
      if e.kind = .notFound then throw (.system e)
      else if ← isDir p then return
      else throw (.system e)
    | .error f => throw f

/-- Makes a directory and those above it; one that exists is kept. -/
def makeDirs (p : Path) : Act Disk Unit := makeDirsWithin p.parts.length p

/-- Removes a file. -/
def unlink (p : Path) : Act Disk Unit := do
  let loc ← locating p
  match ← Act.view fun d => d.at? loc with
  | none => refuse .notFound p
  | some .directory => refuse .isDirectory p
  | some (.file _) => Act.change fun d => { d with entries := Assoc.erase loc d.entries }

/-- Whether a location is another one or lies below it. -/
def within (top loc : List String) : Bool := top.isPrefixOf loc

/-- The names in a directory, sorted. -/
def names (d : Disk) (loc : List String) : List String :=
  Text.sort (d.entries.filterMap fun e =>
    if within loc e.1 && e.1.length == loc.length + 1 then e.1.getLast? else none)

/-- The names in the directory at a path, sorted. -/
def list (p : Path) : Act Disk (List String) := do
  let loc ← locating p
  Act.view fun d => d.names loc

/-- Removes whatever stands at or below a location. -/
def clear (loc : List String) : Act Disk Unit :=
  Act.change fun d => { d with entries := d.entries.filter fun e => !within loc e.1 }

/-- Removes a directory and everything below it. -/
def removeTree (p : Path) : Act Disk Unit := do
  let loc ← locating p
  match ← Act.view fun d => d.at? loc with
  | none => refuse .notFound p
  | some (.file _) => refuse .notDirectory p
  | some .directory => clear loc

/-- The entries at and below `old`, each with its place moved to `new`. -/
def moved (old new : List String) (es : Assoc (List String) Entry) : Assoc (List String) Entry :=
  es.map fun e => if within old e.1 then (new ++ e.1.drop old.length, e.2) else e

/-- A copy of a file under a path, or in the directory at it. -/
def copyFile (source target : Path) : Act Disk Unit := do
  let target := if ← isDir target then target.child source.name else target
  let from_ ← (locating source).attempt
  let to_ ← (locating target).attempt
  match from_, to_ with
  | .ok a, .ok b =>
    if a = b ∧ (← Act.view fun d => (d.at? a).isSome) then
      throw (.system (.stated .sameFile
        (Text.quoted source.text ++ " and " ++ Text.quoted target.text ++ " are the same file")))
  | _, _ => pure ()
  writeBytes target (← readBytes source)

/-- A copy of a directory and everything below it; nothing may stand at the target. -/
def copyTree (source target : Path) : Act Disk Unit := do
  let old ← locating source
  let inside ← Act.view fun d => d.entries.filter fun e => within old e.1
  if ← present target then refuse .exists target
  makeDirs target
  let new ← locating target
  Act.change fun d => { d with
    entries := Assoc.update d.entries (inside.map fun e => (new ++ e.1.drop old.length, e.2)) }

/-- Gives an entry another place, if the platform allows it. -/
def rename (source target : Path) : Act Disk Unit := do
  let old ← locating source
  let new ← locating target
  match ← Act.view fun d => d.at? old, ← Act.view fun d => d.at? new with
  | none, _ => refuse .notFound source
  | some _, there =>
    if old = new then return
    else if within old new then refuse .other source
    else match ← Act.view fun d => d.at? old, there with
      | some .directory, some (.file _) => refuse .notDirectory source
      | some (.file _), some .directory => refuse .isDirectory source
      | _, _ => do
        clear new
        Act.change fun d => { d with entries := moved old new d.entries }

/-- Moves an entry to a path, or into the directory at it.  What cannot be renamed is
copied and then removed. -/
def move (source target : Path) : Act Disk Unit := do
  let into ← isDir target
  let same ← Act.view fun d => match d.locate source, d.locate target with
    | .ok a, .ok b => a == b
    | _, _ => false
  if into && same then rename source target
  else
    let real := if into then target.child source.name else target
    if into then
      if ← present real then
        throw (.system (.stated .refusedMove
          ("Destination path '" ++ real.text ++ "' already exists")))
    match ← (rename source real).attempt with
    | .ok () => return
    | .error (.system _) =>
      if ← isDir source then
        let old ← locating source
        match ← (locating target).attempt with
        | .ok new =>
          if within old new then
            throw (.system (.stated .refusedMove
              ("Cannot move a directory '" ++ source.text ++ "' into itself '" ++
                target.text ++ "'.")))
        | .error _ => pure ()
        copyTree source real
        removeTree source
      else
        copyFile source real
        unlink source
    | .error f => throw f

/-- Everything below a location, in the order of the paths. -/
def below (d : Disk) (loc : List String) : List (String × Entry) :=
  let found := d.entries.filterMap fun e =>
    if within loc e.1 && e.1 != loc then
      some (Text.join "/" (e.1.drop loc.length), e.2) else none
  found.mergeSort fun a b => !Text.before b.1 a.1

end Disk
end TweakEngine
