/-
# Reports as JSON

The same reports for a program.  Moments are written as texts, and values without a
form of their own in JSON as a reader sees them.
-/

import TweakEngine.Json.Writer
import TweakEngine.Service

namespace TweakEngine

/-- The layout of reports for a program. -/
structure JsonReport where
  layout : Json.Layout := .indented 2

namespace JsonReport

/-- Any value. -/
def datum (r : JsonReport) (d : Datum) : String := Json.write r.layout d

/-- The status of a tweak. -/
def statusDatum (s : Status) : Datum := .object
  [("is_applied", .bool s.isApplied), ("can_detect", .bool s.canDetect),
   ("confidence", s.confidence.toDatum), ("message", .text s.message),
   ("last_checked", .text s.lastChecked.text)]

/-- A tweak, with its status if it is given. -/
def tweak (r : JsonReport) (t : Tweak) (status : Option Status) : Except Failure String := do
  match ← t.toDatum, status with
  | .object fields, some s => return r.datum (.object (fields ++ [("status", statusDatum s)]))
  | d, _ => return r.datum d

/-- A tweak in a list. -/
def itemDatum (i : Item) : Datum := .object
  [("id", .text i.tweak.id), ("name", i.tweak.name), ("category", i.tweak.category),
   ("severity", .text i.tweak.severity.label), ("status", statusDatum i.status),
   ("pending_action", .ofLabel? i.pending)]

/-- Tweaks with their statuses. -/
def list (r : JsonReport) (items : List Item) : String := r.datum (.object
  [("count", .int items.length), ("tweaks", .list (items.map itemDatum))])

/-- The result of one tweak. -/
def resultDatum (x : Result) : Datum := .object
  [("success", .bool x.success), ("skipped", .bool x.skipped), ("cancelled", .bool x.cancelled),
   ("error_message", .ofText? x.errorMessage), ("applied_operations", .list x.applied),
   ("failed_operations", .list x.failed), ("messages", .list x.messages),
   ("requires_restart", .bool x.requiresRestart), ("execution_time_ms", x.millis.toDatum)]

/-- The results of a batch. -/
def results (r : JsonReport) (action : Action) (xs : Assoc String Result) : String :=
  r.datum (.object
    [("action", .text action.label), ("count", .int xs.length),
     ("results", .object (xs.map fun e => (e.1, resultDatum e.2)))])

/-- Categories. -/
def categories (r : JsonReport) (cs : List Datum) : String :=
  r.datum (.object [("count", .int cs.length), ("categories", .list cs)])

end JsonReport
end TweakEngine
