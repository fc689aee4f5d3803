/-
# Fields of a definition

An object of a catalog file is read through `Fields`: keys are compared ignoring case,
the first of several accepted names wins, and a null counts as absent.  `require` also
refuses a blank text.
-/

import TweakEngine.Datum.Items

namespace TweakEngine

/-- The fields of an object under their folded keys, and what the object is. -/
structure Fields where
  entries : Assoc String Datum
  what : String

namespace Fields

/-- The fields of an object. -/
def ofDatum (what : String) : Datum → Except Failure Fields
  | .object fields => .ok ⟨Assoc.ofList (fields.map fun e => (Text.fold e.1, e.2)), what⟩
  | d => .error (.malformed (.notObject what d.form))

/-- The first of the named fields that is present and not null. -/
def find? (f : Fields) (names : List String) : Option Datum :=
  names.findSome? fun name =>
    match Assoc.get? (Text.fold name) f.entries with
    | some .null => none
    | some d => some d
    | none => none

/-- A field, or null. -/
def get (f : Fields) (name : String) : Datum := (f.find? [name]).getD .null

/-- A field, or a default. -/
def getOr (f : Fields) (name : String) (default : Datum) : Datum := (f.find? [name]).getD default

/-- A field that must be present and not blank. -/
def require (f : Fields) (name : String) : Except Failure Datum :=
  let missing : Failure := .malformed (.missingField f.what name)
  match f.find? [name] with
  | none => .error missing
  | some (.text s) => if Text.isBlankText s then .error missing else .ok (.text s)
  | some d => .ok d

end Fields

end TweakEngine
