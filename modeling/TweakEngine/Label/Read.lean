/-
# Labels out of loosely typed values

A value names a member by its text form.  `Labelled.ofTag` also takes the integers of
older files: the position of the member, or a number of its own where the vocabulary
has such numbers.
-/

import TweakEngine.Failure

namespace TweakEngine
namespace Labelled

variable {α : Type} [Labelled α]

/-- The member that a value names. -/
def ofDatum (d : Datum) : Except Failure α :=
  match parse? d.display with
  | some a => .ok a
  | none => .error (.malformed (.unknownLabel (vocabulary α) d.quoted))

/-- The member that a tag names: a word, a position, or one of the given numbers. -/
def ofTag (numbers : Option (List (Int × α))) (d : Datum) : Except Failure α :=
  let invalid : Failure := .malformed (.invalidLabel (vocabulary α) d.quoted)
  match d with
  | .bool _ => .error invalid
  | .int n =>
    match numbers with
    | some table => match table.lookup n with
      | some a => .ok a
      | none => .error invalid
    | none =>
      if n < 0 then .error invalid
      else match (members : List α)[n.toNat]? with
        | some a => .ok a
        | none => .error invalid
  | d => ofDatum d

end Labelled
end TweakEngine
