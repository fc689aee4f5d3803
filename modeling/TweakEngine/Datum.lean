/-
# Loosely typed values

Catalog, snapshot and configuration files hold JSON, and most of their fields are
passed on as they were found.  A `Datum` is such a value.  Integers of any size and
doubles are kept apart, objects keep the order of their keys, and three forms that no
file can hold (bytes, tuples, typed registry values) may be given by a caller.
-/

import TweakEngine.Registry.Value
import TweakEngine.Decimal.Fixed
import TweakEngine.Assoc

namespace TweakEngine

/-- A loosely typed value. -/
inductive Datum
  | null
  | bool (b : Bool)
  | int (n : Int)
  | float (x : Float)
  | text (s : String)
  | list (items : List Datum)
  | object (fields : List (String × Datum))
  | bytes (bs : List UInt8)
  | tuple (items : List Datum)
  | registry (v : RegistryValue)
  deriving Repr

namespace Datum

instance : Inhabited Datum := ⟨null⟩

/-- The name of a value's form in messages. -/
def form : Datum → String
  | null => "NoneType"
  | bool _ => "bool"
  | int _ => "int"
  | float _ => "float"
  | text _ => "str"
  | list _ => "list"
  | object _ => "dict"
  | bytes _ => "bytes"
  | tuple _ => "tuple"
  | registry _ => "RegistryValue"

/-- Whether a value counts as true: not absent, not zero and not empty. -/
def truthy : Datum → Bool
  | null => false
  | bool b => b
  | int n => n != 0
  | float x => x != 0
  | text s => s != ""
  | list items | tuple items => !items.isEmpty
  | object fields => !fields.isEmpty
  | bytes bs => !bs.isEmpty
  | registry _ => true

/-- Whether a value is absent. -/
def isNull : Datum → Bool
  | null => true
  | _ => false

/-- The text of a value that is one. -/
def text? : Datum → Option String
  | text s => some s
  | _ => none

/-- An optional text as a value. -/
def ofText? : Option String → Datum
  | some s => text s
  | none => null

/-- Optional words as values. -/
def ofLabel? {α : Type} [Labelled α] : Option α → Datum
  | some a => text (Labelled.label a)
  | none => null

/-- The field of an object. -/
def field? (key : String) : Datum → Option Datum
  | object fields => Assoc.get? key fields
  | _ => none

mutual

/-- A value as a literal: texts are quoted, and lists and objects are written out. -/
def quoted : Datum → String
  | null => "None"
  | bool b => if b then "True" else "False"
  | int n => Decimal.intText n
  | float x => Decimal.render x
  | text s => Text.quoted s
  | list items => "[" ++ Text.join ", " (quotedItems items) ++ "]"
  | object fields => "\x7b" ++ Text.join ", " (quotedFields fields) ++ "\x7d"
  | bytes bs => Text.quotedBytes bs
  | tuple [] => "()"
  | tuple [item] => "(" ++ quoted item ++ ",)"
  | tuple (a :: b :: items) =>
    "(" ++ Text.join ", " (quoted a :: quoted b :: quotedItems items) ++ ")"
  | registry v => quotedValue v

/-- The literals of a list of values. -/
def quotedItems : List Datum → List String
  | [] => []
  | item :: items => quoted item :: quotedItems items

/-- The literals of the fields of an object. -/
def quotedFields : List (String × Datum) → List String
  | [] => []
  | (key, value) :: fields => (Text.quoted key ++ ": " ++ quoted value) :: quotedFields fields

/-- A registry value as a literal. -/
def quotedValue (v : RegistryValue) : String :=
  let data := match v with
    | .string s | .expandString s => Text.quoted s
    | .dword n => toString n.toNat
    | .qword n => toString n.toNat
    | .binary bs => Text.quotedBytes bs
    | .multiString [line] => "(" ++ Text.quoted line ++ ",)"
    | .multiString lines => "(" ++ Text.join ", " (lines.map Text.quoted) ++ ")"
  "RegistryValue(kind=<RegistryValueKind." ++ Labelled.constant v.kind ++ ": " ++
    Text.quoted v.kind.label ++ ">, data=" ++ data ++ ")"

end

/-- A value as a reader sees it: a text as it is, a registry value by its payload,
everything else as its literal. -/
def display : Datum → String
  | text s => s
  | registry v => v.display
  | d => d.quoted

end Datum
end TweakEngine
