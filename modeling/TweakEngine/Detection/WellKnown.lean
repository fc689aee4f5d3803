/-
# Detectors for single tweaks

Some tweaks are detected from several registry values at once.  An `AnyValue` detector
is content with one of several values under one key.  A `Checklist` counts critical
and additional checks, of which only those with an existing key count; `Tally.applied`
and `Tally.confidence` say what the counts mean, over doubles and over exact fractions
alike.
-/

import TweakEngine.Detection.Detector

namespace TweakEngine
namespace Detection

/-- A registry value and the number that is expected of it. -/
structure Check where
  label : String
  hive : Hive
  keyPath : String
  valueName : String
  expected : Int
  critical : Bool := true
  deriving DecidableEq, Repr

/-- What a check found: nothing when its key is missing. -/
structure Checked where
  check : Check
  keyFound : Bool
  actual : Option String := none
  matched : Bool := false
  deriving DecidableEq, Repr

/-- What a reading says about a check. -/
def Check.judge (c : Check) (r : Reading) : Checked :=
  if !r.keyExists then { check := c, keyFound := false }
  else
    { check := c
      keyFound := true
      actual := r.value?.map RegistryValue.display
      matched := r.valueExists &&
        valuesMatch ((r.value?.map Datum.registry).getD .null) (.int c.expected) "DWord" }

/-- A checked value in words. -/
def Checked.describe (c : Checked) : String :=
  "[" ++ (if c.check.critical then "CRITICAL" else "ADDITIONAL") ++ "] " ++ c.check.label ++ ": " ++
    (if c.matched then "✓" else "✗") ++ " (" ++ c.check.valueName ++ " = " ++
    c.actual.getD "null" ++ ")"

variable {μ : Type}

/-- Reads the value of a check and compares it. -/
def Check.run (c : Check) (probe : Probe μ) : Call μ Checked := do
  return c.judge (← probe.readValue c.hive (.text c.keyPath) (.text c.valueName))

/-- Applied when one of several values under a key has the expected number. -/
structure AnyValue where
  hive : Hive
  keyPath : String
  valueNames : List String
  expected : Int
  label : String
  confidence : Float := 0.95
  missingKeyConfidence : Float := 0.90
  missingKeyMessage : String := "Registry key not found"

/-- The status of a tweak by any of several values. -/
def AnyValue.detect (a : AnyValue) (tweak : Tweak) (probe : Probe μ) : Call μ Status := do
  if !(← probe.keyExists a.hive (.text a.keyPath)) then
    return {
      tweakId := tweak.id
      canDetect := true
      confidence := .float a.missingKeyConfidence
      message := a.missingKeyMessage }
  let found ← a.valueNames.mapM fun name =>
    Check.run ⟨name, a.hive, a.keyPath, name, a.expected, true⟩ probe
  let shown := found.map fun c => c.check.label ++ ": " ++ c.actual.getD "not set"
  return {
    tweakId := tweak.id
    isApplied := found.any Checked.matched
    canDetect := true
    confidence := .float a.confidence
    message := a.label ++ " (" ++ Text.join ", " shown ++ ")"
    details := found.map fun c => (c.check.label, Datum.ofText? c.actual) }

/-- The counts of a checklist. -/
structure Tally where
  criticalMatched : Nat
  criticalTotal : Nat
  additionalMatched : Nat
  additionalTotal : Nat
  deriving DecidableEq, Repr

namespace Tally

/-- The checks of one sort whose key exists. -/
def counted (critical : Bool) (checked : List Checked) : List Checked :=
  checked.filter fun c => c.keyFound && c.check.critical == critical

/-- The counts of checked values. -/
def of (checked : List Checked) : Tally :=
  let critical := counted true checked
  let additional := counted false checked
  ⟨critical.countP Checked.matched, critical.length, additional.countP Checked.matched,
    additional.length⟩

/-- Applied when at most one critical check fails and three quarters of them match. -/
def applied (t : Tally) : Bool :=
  t.criticalTotal > 0 && t.criticalMatched ≥ max 1 (t.criticalTotal - 1) &&
    4 * t.criticalMatched ≥ 3 * t.criticalTotal

/-- A count as a number. -/
def amount {α : Type} [OfScientific α] (n : Nat) : α := OfScientific.ofScientific n false 0

/-- How sure the counts are: it grows with the share of critical checks that match. -/
def confidence {α : Type} [OfScientific α] [Add α] [Mul α] [Div α] [LT α] [DecidableLT α]
    (t : Tally) : α :=
  let share : α :=
    if t.criticalTotal = 0 then 0.0 else amount t.criticalMatched / amount t.criticalTotal
  let grown : α := 0.6 + share * 0.35
  if grown < 0.95 then grown else 0.95

/-- The counts in words. -/
def text (t : Tally) : String :=
  "Critical: " ++ toString t.criticalMatched ++ "/" ++ toString t.criticalTotal ++
    ", Additional: " ++ toString t.additionalMatched ++ "/" ++ toString t.additionalTotal

end Tally

/-- Scores critical and additional checks. -/
structure Checklist where
  checks : List Check
  label : String
  shown : Nat := 3

/-- The speaker of checklists. -/
def Checklist.speaker : String := "tweakd.detection.well_known"

/-- The status that checked values give. -/
def Checklist.status (l : Checklist) (tweakId : String) (checked : List Checked) : Status :=
  let tally := Tally.of checked
  let ordered := Tally.counted true checked ++ Tally.counted false checked
  let summary := Text.join "; " ((ordered.take l.shown).map Checked.describe) ++
    (if ordered.length > l.shown then "..." else "")
  { tweakId
    isApplied := tally.applied
    canDetect := true
    confidence := .float tally.confidence
    message := Text.trimEnd (l.label ++ " - " ++ tally.text ++ ". " ++ summary)
    details := (checked.filter Checked.keyFound).map fun c => (c.check.label, .bool c.matched) }

/-- The status of a tweak by a checklist. -/
def Checklist.detect (l : Checklist) (tweak : Tweak) (probe : Probe μ) : Call μ Status := do
  let checked ← l.checks.mapM fun c => c.run probe
  let tally := Tally.of checked
  Host.say .debug Checklist.speaker
    (tweak.id ++ ": critical=" ++ toString tally.criticalMatched ++ "/" ++
      toString tally.criticalTotal ++ ", additional=" ++ toString tally.additionalMatched ++ "/" ++
      toString tally.additionalTotal ++ ", applied=" ++ truthText tally.applied)
  return l.status tweak.id checked

/-- The dark theme of the desktop. -/
def darkMode : AnyValue where
  hive := .currentUser
  keyPath := "Software\\Microsoft\\Windows\\CurrentVersion\\Themes\\Personalize"
  valueNames := ["AppsUseLightTheme", "SystemUsesLightTheme"]
  expected := 0
  label := "Detected via Windows theme registry"
  missingKeyMessage := "Personalize registry key not found (light theme default)"

/-- Ending tasks from the task bar. -/
def endTask : AnyValue where
  hive := .currentUser
  keyPath :=
    "Software\\Microsoft\\Windows\\CurrentVersion\\Explorer\\Advanced\\TaskbarDeveloperSettings"
  valueNames := ["TaskbarEndTask"]
  expected := 1
  label := "TaskbarEndTask registry value"
  missingKeyMessage := "TaskbarDeveloperSettings registry key not found (feature not enabled)"

/-- Telemetry switched off. -/
def telemetry : Checklist where
  label := "Telemetry detection"
  checks :=
    [⟨"AllowTelemetry (Location 1)", .localMachine,
        "SOFTWARE\\Microsoft\\Windows\\CurrentVersion\\Policies\\DataCollection",
        "AllowTelemetry", 0, true⟩,
     ⟨"AllowTelemetry (Location 2)", .localMachine,
        "SOFTWARE\\Policies\\Microsoft\\Windows\\DataCollection", "AllowTelemetry", 0, true⟩,
     ⟨"Feedback Notifications", .localMachine,
        "SOFTWARE\\Policies\\Microsoft\\Windows\\DataCollection",
        "DoNotShowFeedbackNotifications", 1, true⟩,
     ⟨"Advertising ID", .localMachine,
        "SOFTWARE\\Policies\\Microsoft\\Windows\\AdvertisingInfo",
        "DisabledByGroupPolicy", 1, true⟩,
     ⟨"Windows Error Reporting", .localMachine,
        "SOFTWARE\\Microsoft\\Windows\\Windows Error Reporting", "Disabled", 1, false⟩,
     ⟨"Delivery Optimization", .localMachine,
        "SOFTWARE\\Microsoft\\Windows\\CurrentVersion\\DeliveryOptimization\\Config",
        "DODownloadMode", 0, false⟩,
     ⟨"Remote Assistance", .localMachine,
        "SYSTEM\\CurrentControlSet\\Control\\Remote Assistance", "fAllowToGetHelp", 0, false⟩,
     ⟨"Tailored Experiences", .currentUser,
        "SOFTWARE\\Policies\\Microsoft\\Windows\\CloudContent",
        "DisableTailoredExperiencesWithDiagnosticData", 1, false⟩]

/-- The built-in detectors under the identifiers that they serve. -/
def wellKnown : Assoc String (Tweak → Probe μ → Call μ Status) :=
  ["dark-mode", "darkmode"].map (·, darkMode.detect) ++
  ["end-task-on-taskbar", "endtaskontaskbar", "taskbar-end-task"].map (·, endTask.detect) ++
  ["disable-telemetry", "telemetry", "disabletelemetry"].map (·, telemetry.detect)

end Detection

/-- A detector over a probe, with the built-in detectors or without them. -/
def Detector.over {μ : Type} (probe : Probe μ) (useWellKnown : Bool) (scriptTimeout : Datum) :
    Detector μ :=
  { probe, scriptTimeout, wellKnown := if useWellKnown then Detection.wellKnown else [] }

end TweakEngine
