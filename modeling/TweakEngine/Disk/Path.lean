/-
# Paths

A path is a root and the parts below it.  Empty parts and single dots are dropped when
a text is read, `..` is kept, and a root of exactly two slashes differs from one of one
or of three and more.  A relative path without parts is written as a dot.
-/

import TweakEngine.Failure

namespace TweakEngine

/-- What a path starts from. -/
inductive Path.Root
  | relative | slash | doubleSlash
  deriving DecidableEq, Repr

/-- A path in normal form. -/
structure Path where
  root : Path.Root
  parts : List String
  deriving DecidableEq, Repr

namespace Path

/-- The characters that stand for a root. -/
def Root.text : Root → String
  | relative => ""
  | slash => "/"
  | doubleSlash => "//"

/-- The root that a number of leading slashes stands for. -/
def Root.ofSlashes : Nat → Root
  | 0 => relative
  | 2 => doubleSlash
  | _ => slash

/-- The path that a text stands for. -/
def ofText (s : String) : Path :=
  let slashes := (s.toList.takeWhile (· == '/')).length
  ⟨Root.ofSlashes slashes, (Text.splitOnChar '/' s).filter fun p => p ≠ "" ∧ p ≠ "."⟩

/-- A path in writing. -/
def text (p : Path) : String :=
  if p.root = .relative ∧ p.parts = [] then "."
  else p.root.text ++ Text.join "/" p.parts

/-- Whether a path starts from a root. -/
def isAbsolute (p : Path) : Bool := p.root != .relative

/-- A path seen from another one; an absolute path stays as it is. -/
def under (base p : Path) : Path :=
  if p.isAbsolute then p else ⟨base.root, base.parts ++ p.parts⟩

/-- A path below another one. -/
def child (base : Path) (name : String) : Path := base.under (ofText name)

/-- The path without its last part. -/
def parent (p : Path) : Path := ⟨p.root, p.parts.dropLast⟩

/-- The last part. -/
def name (p : Path) : String := p.parts.getLastD ""

/-- The last part without its last extension; a dot at either end is no extension. -/
def stem (p : Path) : String :=
  let cs := p.name.toList
  let after := cs.reverse.takeWhile (· != '.')
  let before := cs.length - after.length - 1
  if after = [] ∨ after.length = cs.length ∨ before = 0 then p.name
  else String.ofList (cs.take before)

/-- The path with an absolute root and without `..`, seen from a place.  Going up from the
root stays there. -/
def resolved (here : List String) (p : Path) : Path :=
  let step (done : List String) (name : String) : List String :=
    if name = ".." then done.dropLast else done ++ [name]
  ⟨.slash, ((if p.isAbsolute then [] else here) ++ p.parts).foldl step []⟩

/-- The path that a loosely typed value stands for; only a text does. -/
def ofDatum : Datum → Except Failure Path
  | .text s => .ok (ofText s)
  | d => .error (.mistyped
      ("expected str, bytes or os.PathLike object, not " ++ d.form))

/-- A leading `~` stands for a home directory; the homes of other users are not known. -/
def expandHome (home : String) (p : Path) : Except Failure Path :=
  match p.root, p.parts with
  | .relative, first :: rest =>
    if first = "~" then
      let h := ofText home
      .ok ⟨h.root, h.parts ++ rest⟩
    else if first.toList.head? = some '~' then
      .error (.unexpected "Could not determine home directory.")
    else .ok p
  | _, _ => .ok p

end Path
end TweakEngine
