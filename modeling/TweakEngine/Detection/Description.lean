/-
# Detectors described in JSON

Statuses and outcomes as they are given, and detectors whose verdicts are given.  An
object names, for sorts of rules and for tweaks, the verdict that is reached or the
failure that is met instead.
-/

import TweakEngine.Detection.WellKnown
import TweakEngine.System.Description

namespace TweakEngine

/-- A grade of certainty; nothing is certain without one. -/
def Number.ofDatum (d : Datum) : Number := (Number.ofDatum? d).getD (.float 0)

/-- The outcome with a verdict, a grade of certainty and a message. -/
def Outcome.ofDatum : Datum → Outcome Number
  | .list [matched, confidence, message] =>
    ⟨matched.truthy, (Number.ofDatum? confidence).getD (.int 0), message.display⟩
  | _ => ⟨false, .int 0, ""⟩

/-- The status of a tweak at a moment. -/
def Status.ofDatum (tweakId : String) (now : Moment) (d : Datum) : Status where
  tweakId := tweakId
  isApplied := d.flagAt "is_applied" false
  canDetect := d.flagAt "can_detect" false
  confidence := Number.ofDatum (d.get "confidence")
  message := d.textAt "message"
  lastChecked := now

namespace Detector

variable {μ : Type}

/-- Gives what `read` makes of a description, or fails as the description says. -/
def given {σ α : Type} (d : Datum) (failing : String) (read : Act σ α) : Act σ α :=
  match d.field? "raise" with
  | some sort => throw (Failure.named sort.display failing)
  | none => read

/-- A detector for which the outcomes of a sort of rules are given. -/
def withOutcome (detector : Detector μ) (kind : String) (d : Datum) : Detector μ :=
  let run : Rule → Call μ (Outcome Number) := fun _ =>
    given d "evaluator failed" (pure (Outcome.ofDatum (d.get "outcome")))
  { detector with evaluators := Assoc.put (Text.fold kind) run detector.evaluators }

/-- A detector for which the statuses of some tweaks are given. -/
def withStatus (detector : Detector μ) (d : Datum) : Detector μ :=
  let run : Tweak → Probe μ → Call μ Status := fun t _ =>
    given d "detector failed" do return Status.ofDatum t.id (← Host.now) d
  let ids := match d.get "ids" with
    | .list xs => xs.map Datum.display
    | x => [x.display]
  { detector with
    wellKnown := ids.foldl (fun table id => Assoc.put (Text.fold id) run table) detector.wellKnown }

/-- The detector that a description asks for. -/
def ofDatum (probe : Probe μ) (d : Datum) : Detector μ :=
  let plain := Detector.over probe (d.flagAt "well_known" false)
    ((d.field? "timeout").getD (.int 30))
  let ruled := (d.fieldsAt "evaluators").foldl
    (fun (detector : Detector μ) e => detector.withOutcome e.1 e.2) plain
  (d.listAt "detectors").foldl withStatus ruled

end Detector
end TweakEngine
