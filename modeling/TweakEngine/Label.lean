/-
# Labels

The closed vocabularies of a catalog (hives, value kinds, operations, …) are types
whose members have a label and a constant name.  A text names a member when it equals
its label, its constant or one of its aliases, up to case and the separators `_`, `-`
and blank.
-/

import TweakEngine.Text.Fold

namespace TweakEngine

/-- A closed vocabulary. -/
class Labelled (α : Type) where
  /-- The name of the vocabulary in messages. -/
  vocabulary : String
  /-- The members in their order. -/
  members : List α
  /-- The word that is written for a member. -/
  label : α → String
  /-- The name of a member in capitals. -/
  constant : α → String
  /-- Further words for members, in their normal form. -/
  aliases : List (String × α) := []

namespace Labelled

/-- The normal form of a word: separators are dropped and case is ignored. -/
def normal (word : String) : String :=
  Text.lowerWord (String.ofList (word.toList.filter fun c => c != '_' && c != '-' && c != ' '))

/-- The member that a word names. -/
def parse? {α : Type} [Labelled α] (word : String) : Option α :=
  let wanted := normal word
  match (members : List α).find? fun m =>
      wanted == normal (label m) || wanted == normal (constant m) with
  | some m => some m
  | none => aliases.lookup wanted

end Labelled
end TweakEngine
