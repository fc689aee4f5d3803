/-
# The platform's registry

Keys with their values as the platform stores them: a payload and the number of its
type.  A key exists together with all keys above it.  Names are found ignoring the case
of ASCII letters.  Keys may be denied, and then nothing can be opened there.
-/

import TweakEngine.Label.Read
import TweakEngine.Registry.Coerce

namespace TweakEngine

/-- A value as the platform stores it. -/
structure StoredValue where
  data : Datum
  type : Int

namespace StoredValue

/-- The type numbers of the kinds. -/
def typeNumbers : List (ValueKind × Int) :=
  [(.string, 1), (.expandString, 2), (.binary, 3), (.dword, 4), (.multiString, 7), (.qword, 11)]

/-- The kind with a type number. -/
def kind? (type : Int) : Option ValueKind :=
  (typeNumbers.find? fun e => e.2 == type).map Prod.fst

/-- The type number of a kind. -/
def typeOf (kind : ValueKind) : Int := (typeNumbers.lookup kind).getD 0

/-- The typed value of a stored one.  Of an unknown type, bytes are taken as they are and
everything else as its text. -/
def value (v : StoredValue) : Except Failure (Option RegistryValue) :=
  match kind? v.type with
  | some kind => RegistryValue.coerce v.data kind
  | none => match v.data with
    | .null => .ok (some (.binary []))
    | .bytes bs => .ok (some (.binary bs))
    | d => RegistryValue.coerce (.text d.display) .string

/-- A typed value in the form that is stored. -/
def ofValue (v : RegistryValue) : StoredValue :=
  { type := typeOf v.kind
    data := match v.payload with
      | .tuple items => .list items
      | d => d }

end StoredValue

/-- The place of a key: its hive and its folded path. -/
abbrev KeyPlace := Hive × String

/-- The registry of a platform. -/
structure RegistryTree where
  keys : Assoc KeyPlace (Assoc String StoredValue) := []
  denied : List KeyPlace := []

namespace RegistryTree

/-- The text of a name; an empty one is the default value's. -/
def nameOf (d : Datum) : Except Failure String :=
  if !d.truthy then .ok ""
  else match d with
    | .text s => .ok (Text.lowerAsciiText s)
    | d => .error (.mistyped ("a name is a text and not a " ++ d.form))

/-- The place of a key by its hive and path. -/
def place (hive : Hive) (path : Datum) : Except Failure KeyPlace := do
  return (hive, ← nameOf path)

/-- A path and the paths above it, the shortest first. -/
def ancestors (path : String) : List String :=
  let parts := Text.splitOnChar '\\' path
  (List.range parts.length).map fun n => Text.join "\\" (parts.take (n + 1))

/-- Adds a key with the keys above it. -/
def add (t : RegistryTree) (k : KeyPlace) : RegistryTree :=
  { t with
    keys := (ancestors k.2).foldl
      (fun keys path => if Assoc.has (k.1, path) keys then keys else Assoc.put (k.1, path) [] keys)
      t.keys }

/-- The refusal of a denied key. -/
def refusal : Failure := .system (.stated .permission "Access is denied")

/-- The refusal of a key or value that is not there. -/
def missing : Failure :=
  .system (.stated .notFound "The system cannot find the file specified")

/-- The values of a key that can be opened. -/
def openKey (t : RegistryTree) (k : KeyPlace) : Except Failure (Assoc String StoredValue) :=
  if t.denied.contains k then .error refusal
  else match Assoc.get? k t.keys with
    | some values => .ok values
    | none => .error missing

/-- Makes a key that is missing. -/
def createKey (t : RegistryTree) (k : KeyPlace) : Except Failure RegistryTree :=
  if t.denied.contains k then .error refusal else .ok (t.add k)

/-- Whether a key is there; a denied one is. -/
def hasKey (t : RegistryTree) (k : KeyPlace) : Bool :=
  match t.openKey k with
  | .ok _ => true
  | .error f => f = refusal

/-- Puts the values of a key. -/
def putValues (t : RegistryTree) (k : KeyPlace) (values : Assoc String StoredValue) :
    RegistryTree :=
  { t with keys := Assoc.put k values t.keys }

/-- The names of the keys directly below a key, sorted. -/
def subkeys (t : RegistryTree) (k : KeyPlace) : List String :=
  let above := (k.2 ++ "\\").toList
  Text.sort (t.keys.filterMap fun e =>
    let rest := e.1.2.toList.drop above.length
    if e.1.1 = k.1 && above.isPrefixOf e.1.2.toList && !rest.contains '\\' then
      some (String.ofList rest)
    else none)

/-- The refusal of an index past the last key below a key. -/
def noMore : Failure := .system (.stated .other "No more data is available")

/-- The name at an index of the keys directly below a key. -/
def subkeyAt (t : RegistryTree) (k : KeyPlace) (index : Nat) : Except Failure String :=
  match (t.subkeys k)[index]? with
  | some name => .ok name
  | none => .error noMore

/-- Removes a key without keys below it. -/
def removeLeaf (t : RegistryTree) (k : KeyPlace) : Except Failure RegistryTree :=
  if !(t.subkeys k).isEmpty then .error refusal
  else if Assoc.has k t.keys then .ok { t with keys := Assoc.erase k t.keys }
  else .error missing

/-- The order of keys by hive and path. -/
def before (a b : KeyPlace) : Bool :=
  let x := Labelled.label a.1
  let y := Labelled.label b.1
  Text.before x y || (x == y && Text.before a.2 b.2)

/-- What a registry holds. -/
def toDatum (t : RegistryTree) : Datum :=
  let keys := t.keys.mergeSort fun a b => !before b.1 a.1
  .list (keys.map fun e => .list
    [.text (Labelled.label e.1.1), .text e.1.2,
     .object (e.2.map fun v => (v.1, .list [v.2.data, .int v.2.type]))])

/-- The items of a list field. -/
def entries (d : Datum) (key : String) : List Datum :=
  match d.field? key with
  | some (.list items) => items
  | _ => []

/-- Adds a described key with its values. -/
def describeKey (t : RegistryTree) (d : Datum) : Except Failure RegistryTree := do
  let k ← place (← Labelled.ofDatum ((d.field? "hive").getD .null)) ((d.field? "path").getD .null)
  let t := t.add k
  let values ← (entries d "values").foldlM (fun values v => do
    let type := match v.field? "type" with
      | some (.int n) => n
      | _ => 0
    let stored : StoredValue := { data := (v.field? "data").getD .null, type }
    return Assoc.put (← nameOf ((v.field? "name").getD .null)) stored values)
    ((Assoc.get? k t.keys).getD [])
  return t.putValues k values

/-- The registry that an object describes by its keys and the denied ones. -/
def ofDatum (d : Datum) : Except Failure RegistryTree := do
  let t ← (entries d "keys").foldlM describeKey {}
  let denied ← (entries d "denied").mapM fun k => do
    place (← Labelled.ofDatum ((k.field? "hive").getD .null)) ((k.field? "path").getD .null)
  return { t with denied }

end RegistryTree
end TweakEngine
