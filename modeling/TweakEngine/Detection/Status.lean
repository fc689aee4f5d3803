/-
# Statuses

A status is the verdict on one tweak: whether it is applied, whether that could be
found out at all, how sure it is, why, and when it was looked at.
-/

import TweakEngine.Detection.Outcome
import TweakEngine.Moment

namespace TweakEngine

/-- The verdict on one tweak. -/
structure Status where
  tweakId : String
  isApplied : Bool := false
  canDetect : Bool := false
  confidence : Number := .float 0
  message : String := ""
  lastChecked : Moment := ⟨0⟩
  /-- What was observed, under the names of the observations. -/
  details : List (String × Datum) := []
  deriving Repr

namespace Status

/-- The status of a tweak that was not looked at. -/
def notScanned (tweakId : String) (now : Moment) : Status :=
  { tweakId, message := "Not scanned", lastChecked := now }

/-- Whether the tweak is known to be applied. -/
def detectedApplied (s : Status) : Bool := s.canDetect && s.isApplied

/-- The verdict in one or two words. -/
def label (s : Status) : String :=
  if !s.canDetect then "UNKNOWN" else if s.isApplied then "APPLIED" else "NOT APPLIED"

end Status
end TweakEngine
