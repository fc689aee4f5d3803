/-
# Catalogs

A catalog is a list of tweaks in memory or a folder of definition files.  A folder is
read on first use and kept until it is dropped; a file that cannot be read is passed
over and remembered with the reason.  Of several tweaks with one identifier the first
one counts.  `Catalog.find?`, `Catalog.inCategory` and `Catalog.search` ignore case.
-/

import TweakEngine.Catalog.Reader
import TweakEngine.Catalog.Writer
import TweakEngine.Disk.Json
import TweakEngine.System.Host

namespace TweakEngine

/-- A folder of definition files. -/
structure Catalog.Folder where
  directory : Path
  /-- The tweaks, once they have been read. -/
  loaded : Option (List Tweak) := none
  /-- Why files were passed over, by their names. -/
  errors : Assoc String String := []

/-- Where tweaks come from. -/
inductive Catalog
  | memory (tweaks : List Tweak)
  | folder (f : Catalog.Folder)

/-- A catalog with the host that its files are on. -/
structure Shelf (μ : Type) where
  catalog : Catalog
  host : Host μ

namespace Shelf

variable {μ : Type}

/-- The catalog of a shelf. -/
def catalogPart : Part (Shelf μ) Catalog := ⟨Shelf.catalog, fun c s => { s with catalog := c }⟩

/-- The host of a shelf. -/
def hostPart : Part (Shelf μ) (Host μ) := ⟨Shelf.host, fun h s => { s with host := h }⟩

end Shelf

namespace Catalog

variable {μ : Type}

/-- The speaker of definition files. -/
def readerSpeaker : String := "tweakd.catalog.serialization"

/-- The speaker of catalogs. -/
def speaker : String := "tweakd.catalog.provider"

/-- Reads one definition and says what there is to say about it. -/
def readTweak (source : String) (d : Datum) : Call μ Tweak := do
  for notice in Tweak.notices d do
    Host.say .warning readerSpeaker notice
  Act.result (Tweak.ofDatum d source)

/-- Whether a definition has no identifier. -/
def isNameless (d : Datum) : Bool :=
  match Fields.ofDatum "Tweak" d with
  | .ok f => !(f.get "id").truthy
  | .error _ => false

/-- Reads definitions; those without an identifier are skipped. -/
def readTweaks (source : String) : List Datum → Call μ (List Tweak)
  | [] => return []
  | d :: ds => do
    if isNameless d then
      Host.say .debug readerSpeaker ("Skipping entry without id in " ++ source)
      readTweaks source ds
    else
      let t ← readTweak source d
      return t :: (← readTweaks source ds)

/-- The tweaks of a file with one definition or a list of them. -/
def readFrom (p : Path) : Call μ (List Tweak) := do
  match ← Host.onDisk (Disk.readJson p) with
  | .list entries => readTweaks p.name entries
  | d => readTweaks p.name [d]

/-- Writes the definitions of tweaks into a file, which is made first. -/
def writeTo (tweaks : List Tweak) (p : Path) : Call μ Unit := do
  Host.onDisk (Disk.makeDirs p.parent)
  Host.onDisk (Disk.writeText p "")
  let entries ← Act.result (tweaks.mapM Tweak.toDatum)
  Host.onDisk (Disk.writeJson p (.list entries))

/-- Adds tweaks to those that are known; an identifier that is known is passed over. -/
def addNew (file : String) : List Tweak → List Tweak → Call μ (List Tweak)
  | known, [] => return known
  | known, t :: ts => do
    if known.any t.same then
      Host.say .warning speaker
        ("Duplicate tweak id '" ++ t.id ++ "' in " ++ file ++ ", skipping")
      addNew file known ts
    else addNew file (known ++ [t]) ts

/-- Changes what is remembered of a folder. -/
def remember (f : Folder) : Act (Shelf μ) Unit :=
  Shelf.catalogPart.lift (Act.change fun _ => .folder f)

/-- The failures for which a file is passed over. -/
def isFileFault (f : Failure) : Bool := f.isSystem || (f matches .json _ | .malformed _)

/-- Reads the files of a folder, one after the other. -/
def loadFiles (folder : Folder) : List String → List Tweak → Act (Shelf μ) (Folder × List Tweak)
  | [], tweaks => return (folder, tweaks)
  | name :: names, tweaks => do
    let file := folder.directory.child name
    match ← Shelf.hostPart.lift ((readFrom file).rescue isFileFault) with
    | .ok found => loadFiles folder names (← Shelf.hostPart.lift (addNew name tweaks found))
    | .error e =>
      Shelf.hostPart.lift
        (Host.say .error speaker ("Error loading tweaks from " ++ name ++ ": " ++ e.message))
      let folder := { folder with errors := Assoc.put name e.message folder.errors }
      remember folder
      loadFiles folder names tweaks

/-- Reads a folder. -/
def load (folder : Folder) : Act (Shelf μ) (List Tweak) := do
  let directory := folder.directory
  if !(← Shelf.hostPart.lift (Host.onDisk (Disk.isDir directory))) then
    throw (.system (.stated .notFound ("Tweak directory not found: " ++ directory.text)))
  let folder := { folder with errors := [] }
  remember folder
  let names ← Shelf.hostPart.lift (Host.onDisk (Disk.list directory))
  let files := names.filter fun n => n.endsWith ".json"
  let (folder, tweaks) ← loadFiles folder files []
  Shelf.hostPart.lift (Host.say .info speaker
    ("Loaded " ++ toString tweaks.length ++ " tweaks from " ++ directory.text))
  remember { folder with loaded := some tweaks }
  return tweaks

/-- All tweaks in their order. -/
def tweaks : Act (Shelf μ) (List Tweak) := do
  match ← Act.view Shelf.catalog with
  | .memory ts => return ts
  | .folder f => match f.loaded with
    | some ts => return ts
    | none => load f

/-- The tweak with an identifier. -/
def find? (tweakId : String) : Act (Shelf μ) (Option Tweak) := do
  return (← tweaks).find? fun t => t.key == Text.fold tweakId

/-- The folded text of a field; a field without text has none. -/
def foldedField (d : Datum) : Except Failure String :=
  match d with
  | .text s => .ok (Text.fold s)
  | d => .error (Failure.lacks d "casefold")

/-- The tweaks of a category. -/
def inCategory (category : String) : Act (Shelf μ) (List Tweak) := do
  Act.result ((← tweaks).filterM fun t => do
    return (← foldedField t.category) == Text.fold category)

/-- Whether one of several fields holds a folded text; later fields are not looked at. -/
def anyHolds (needle : String) : List Datum → Except Failure Bool
  | [] => return false
  | d :: ds => do
    if Text.contains (← foldedField d) needle then return true else anyHolds needle ds

/-- The tweaks whose name, description or tags hold a text; a blank text is nowhere. -/
def search (term : String) : Act (Shelf μ) (List Tweak) := do
  if Text.isBlankText term then return []
  let needle := Text.fold (Text.trim term)
  Act.result ((← tweaks).filterM fun t => anyHolds needle (t.name :: t.description :: t.tags))

/-- The categories that are not empty, sorted. -/
def categories : Act (Shelf μ) (List Datum) := do
  let named := ((← tweaks).map Tweak.category).filter Datum.truthy
  Act.result (do Datum.sorted (← (Datum.list named).elements))

/-- The reasons why files were passed over. -/
def errors : Catalog → Assoc String String
  | memory _ => []
  | folder f => f.errors

/-- Forgets what was read from a folder. -/
def reload : Catalog → Catalog
  | memory ts => memory ts
  | folder f => folder { f with loaded := none }

/-- Adds a tweak to a catalog in memory, unless its identifier is taken.  A folder takes
no tweaks but those of its files. -/
def add (t : Tweak) : Catalog → Except Failure Catalog
  | memory ts =>
    if ts.any t.same then .error (.malformed (.duplicateId t.id)) else .ok (memory (ts ++ [t]))
  | folder _ => .error (.noAttribute "a folder takes no further tweaks")

/-- A catalog in memory. -/
def ofList (ts : List Tweak) : Except Failure Catalog :=
  ts.foldlM (fun (c : Catalog) t => c.add t) (memory [])

end Catalog
end TweakEngine
