/-
# Outcomes and how they are combined

An outcome says whether a rule matched, how sure that is, and why.  Grades of
certainty are numbers of any type that can be added, shared out and compared, so the
combination can be read over the doubles that run and over exact fractions alike.
With no rules nothing matches; `any` needs one match and is as sure as its surest
rule; `all` needs every match and is as sure as its rules are on average.
-/

import TweakEngine.Datum.Number
import TweakEngine.Detection.Rule

namespace TweakEngine

/-- What combining needs to know of a grade of certainty. -/
class Graded (α : Type) where
  zero : α
  add : α → α → α
  /-- A sum shared out among a number of rules. -/
  share : α → Nat → α
  below : α → α → Bool

/-- An integer or a double. -/
inductive Number
  | int (n : Int)
  | float (x : Float)
  deriving DecidableEq, Repr

namespace Number

/-- The double nearest to a number. -/
def toFloat : Number → Float
  | int n => Decimal.ofInt n
  | float x => x

/-- A number as a loosely typed value. -/
def toDatum : Number → Datum
  | int n => .int n
  | float x => .float x

/-- The number that a value is. -/
def ofDatum? : Datum → Option Number
  | .bool b => some (int (if b then 1 else 0))
  | .int n => some (int n)
  | .float x => some (float x)
  | _ => none

instance : Graded Number where
  zero := float 0
  add
    | int m, int n => int (m + n)
    | a, b => float (a.toFloat + b.toFloat)
  share a n := float (a.toFloat / Decimal.ofInt n)
  below
    | int m, int n => m < n
    | a, b => a.toFloat < b.toFloat

end Number

/-- The result of evaluating one rule or several. -/
structure Outcome (α : Type) where
  matched : Bool
  confidence : α
  message : String
  deriving DecidableEq, Repr

namespace Outcome

variable {α : Type} [Graded α]

/-- The highest grade, the first one among equals. -/
def highest (first : α) (rest : List α) : α :=
  rest.foldl (fun best a => if Graded.below best a then a else best) first

/-- The sum of grades from left to right. -/
def total (grades : List α) : α := grades.foldl Graded.add Graded.zero

/-- The messages in one text. -/
def messages (outcomes : List (Outcome α)) : String :=
  Text.join "; " (outcomes.map Outcome.message)

/-- The outcome of a list of rules.  `custom` is combined as `all`. -/
def combine (logic : Logic) : List (Outcome α) → Outcome α
  | [] => ⟨false, Graded.zero, "No rules to evaluate"⟩
  | o :: os =>
    let outcomes := o :: os
    match logic with
    | .any =>
      let hits := outcomes.filter Outcome.matched
      let chosen := if hits.isEmpty then outcomes else hits
      ⟨!hits.isEmpty, highest o.confidence (os.map Outcome.confidence), messages chosen⟩
    | .all | .custom =>
      ⟨outcomes.all Outcome.matched,
        Graded.share (total (outcomes.map Outcome.confidence)) outcomes.length, messages outcomes⟩

end Outcome
end TweakEngine
