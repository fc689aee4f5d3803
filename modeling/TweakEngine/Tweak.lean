/-
# Tweaks

A declarative, reversible change of a system: its identity, the operations that apply
it, the operations that undo it where it declares them, and the rules that detect it.
Two tweaks are the same when their identifiers are equal ignoring case.
-/

import TweakEngine.Operation
import TweakEngine.Detection.Rule

namespace TweakEngine

/-- How invasive a tweak is. -/
inductive Severity
  | low | medium | high | critical
  deriving DecidableEq, Repr

namespace Severity

instance : Labelled Severity where
  vocabulary := "TweakSeverity"
  members := [low, medium, high, critical]
  label
    | low => "Low" | medium => "Medium" | high => "High" | critical => "Critical"
  constant
    | low => "LOW" | medium => "MEDIUM" | high => "HIGH" | critical => "CRITICAL"

/-- The word that is written for a severity. -/
def label (s : Severity) : String := Labelled.label s

/-- The place of a severity in the order. -/
def rank : Severity → Nat
  | low => 0
  | medium => 1
  | high => 2
  | critical => 3

instance : LE Severity := ⟨fun a b => a.rank ≤ b.rank⟩
instance : LT Severity := ⟨fun a b => a.rank < b.rank⟩
instance (a b : Severity) : Decidable (a ≤ b) := inferInstanceAs (Decidable (a.rank ≤ b.rank))
instance (a b : Severity) : Decidable (a < b) := inferInstanceAs (Decidable (a.rank < b.rank))

/-- Severities in increasing order. -/
def sort (xs : List Severity) : List Severity := xs.mergeSort fun a b => decide (a ≤ b)

end Severity

/-- What a user asks for. -/
inductive Action
  | apply | revert
  deriving DecidableEq, Repr

instance : Labelled Action where
  vocabulary := "TweakAction"
  members := [.apply, .revert]
  label
    | .apply => "Apply" | .revert => "Revert"
  constant
    | .apply => "APPLY" | .revert => "REVERT"

/-- The word that is written for an action. -/
def Action.label (a : Action) : String := Labelled.label a

/-- A declarative, reversible change of a system. -/
structure Tweak where
  id : String
  name : Datum
  description : Datum := .text ""
  category : Datum := .text ""
  subCategory : Datum := .text ""
  severity : Severity := .low
  requiresRestart : Bool := false
  isReversible : Bool := true
  /-- The tags without repetition, in the order in which they were found. -/
  tags : List Datum := []
  source : Datum := .text ""
  version : String := "1.0.0"
  documentationUrl : Datum := .null
  operations : OperationSet := {}
  undo : Option OperationSet := none
  rules : Option RuleSet := none

namespace Tweak

/-- The identifier up to case. -/
def key (t : Tweak) : String := Text.fold t.id

/-- Whether two tweaks are the same. -/
def same (a b : Tweak) : Bool := a.key == b.key

/-- The undo operations, if there are any. -/
def undo? (t : Tweak) : Option OperationSet := t.undo.filter fun ops => !ops.isEmpty

/-- Whether the tweak declares how it is undone. -/
def hasUndo (t : Tweak) : Bool := t.undo?.isSome

/-- The operations that a revert works on. -/
def revertOperations (t : Tweak) : OperationSet := t.undo?.getD t.operations

end Tweak
end TweakEngine
