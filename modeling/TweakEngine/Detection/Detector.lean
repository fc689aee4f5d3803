/-
# Detecting tweaks

A detector answers whether a tweak is applied.  A well-known detector for the tweak has
the first word, its rules the second; a tweak without rules is guessed from its
operations.  A malformed rule counts as unmatched.  Whatever else goes wrong gives the
fallback of the rule set, so `Detector.evaluate` never fails.
-/

import TweakEngine.Detection.Match
import TweakEngine.Detection.Status
import TweakEngine.System.Host
import TweakEngine.Tweak

namespace TweakEngine

/-- Detection by rules, with evaluators for further kinds of rules and detectors for
single tweaks, both found ignoring case. -/
structure Detector (μ : Type) where
  probe : Probe μ
  scriptTimeout : Datum := .int 30
  wellKnown : Assoc String (Tweak → Probe μ → Call μ Status) := []
  evaluators : Assoc String (Rule → Call μ (Outcome Number)) := []

namespace Detection

/-- The speaker of the detector. -/
def speaker : String := "tweakd.detection.engine"

/-- The speaker of verdicts. -/
def verdictSpeaker : String := "tweakd.detection"

/-- How sure a guess from operations is. -/
def operationConfidence : Float := 0.7

/-- A grade between zero and one; what is no number counts as one. -/
def clamp (x : Float) : Float :=
  let low := if x < 1.0 then x else 1.0
  if low > 0.0 then low else 0.0

/-- The outcome of a rule whose target cannot be told. -/
def incomplete (what : String) : Outcome Number :=
  ⟨false, .float 0, "Invalid " ++ what ++ " configuration"⟩

/-- The outcome of a rule that was checked; an inverted rule matches when its check does
not hold. -/
def outcome (rule : Rule) (holds : Bool) (observed : String) : Outcome Number :=
  let matched := holds != rule.inverted
  let message := if matched then rule.success else rule.failure
  ⟨matched, .float (clamp rule.confidence), message.display ++ " (" ++ observed ++ ")"⟩

/-- The spelling of truth values in messages. -/
def truthText (b : Bool) : String := (Datum.bool b).display

/-- The text of a field without blanks at its ends; an empty field has the empty text. -/
def trimmed (d : Datum) : Except Failure String :=
  if !d.truthy then .ok ""
  else match d with
    | .text s => .ok (Text.trim s)
    | d => .error (Failure.lacks d "strip")

variable {μ : Type}

/-- Compares a registry value. -/
def evaluateValue (rule : Rule) (probe : Probe μ) : Call μ (Outcome Number) := do
  if !rule.hive.truthy || !rule.keyPath.truthy || !rule.valueName.truthy then
    return incomplete "registry rule"
  let hive ← Act.result (Labelled.ofDatum rule.hive)
  match ← probe.readValue hive rule.keyPath rule.valueName with
  | .missingKey => return outcome rule false "Key not found"
  | .denied "" => return outcome rule false "Value not found"
  | .denied text => return outcome rule false ("Access denied: " ++ text)
  | .missingValue => return outcome rule false "Value not found"
  | .found value =>
    let actual := (value.map Datum.registry).getD .null
    return outcome rule (valuesMatch actual rule.expected rule.valueType)
      ("Actual: " ++ actual.display)

/-- Looks for a registry key. -/
def evaluateKey (rule : Rule) (probe : Probe μ) : Call μ (Outcome Number) := do
  if !rule.hive.truthy || !rule.keyPath.truthy then return incomplete "registry key rule"
  let hive ← Act.result (Labelled.ofDatum rule.hive)
  let there ← probe.keyExists hive rule.keyPath
  return outcome rule there ("Key exists: " ++ truthText there)

/-- Compares the state of a service.  A start type is expected of the start type, any
other word of the run state, and without a word the service only has to exist. -/
def evaluateService (rule : Rule) (probe : Probe μ) : Call μ (Outcome Number) := do
  if !rule.service.truthy then return incomplete "service rule"
  let snapshot ← probe.queryService rule.service
  if !snapshot.found then return outcome rule false "Service not found"
  let expected ← Act.result (trimmed rule.expectedState)
  if expected = "" then return outcome rule true ("State: " ++ snapshot.state.label)
  let startup := StartupType.ofDatum (.text expected)
  if startup ≠ .unknown then
    return outcome rule (snapshot.startup = startup) ("Startup type: " ++ snapshot.startup.label)
  let state : RunState ← Act.result (Labelled.ofDatum (.text expected))
  return outcome rule (snapshot.state = state) ("State: " ++ snapshot.state.label)

/-- Looks for a file or directory. -/
def evaluateFile (rule : Rule) (probe : Probe μ) : Call μ (Outcome Number) := do
  if !rule.filePath.truthy then return incomplete "file rule"
  let there ← probe.pathExists rule.filePath
  return outcome rule there (if there then "File exists" else "File not found")

/-- An exit code in words. -/
def exitText (code : Option Int) : String := ((code.map Datum.int).getD .null).display

/-- Runs a script.  It has to succeed, and to write the expected text if there is one. -/
def evaluateScript (rule : Rule) (probe : Probe μ) (timeout : Datum) :
    Call μ (Outcome Number) := do
  if (← Act.result (trimmed rule.script)) = "" then return incomplete "PowerShell rule"
  let result ← probe.runDiagnostic rule.script timeout
  if result.timedOut then return outcome rule false "Timed out"
  let succeeded := result.exitCode == some 0
  let observed := "Exit code: " ++ exitText result.exitCode
  if rule.expected.isNull then return outcome rule succeeded observed
  match result.stdout with
  | none => throw (Failure.lacks .null "strip")
  | some stdout =>
    let output := Text.trim stdout
    let same := Text.sameIgnoringCase output (Text.trim (comparedText rule.expected))
    return outcome rule (succeeded && same) (observed ++ ", Output: " ++ output)

end Detection

namespace Detector

open Detection

variable {μ : Type}

/-- The evaluator of a built-in kind of rules. -/
def evaluateAs (d : Detector μ) (kind : RuleKind) (rule : Rule) : Call μ (Outcome Number) :=
  match kind with
  | .registryValue => evaluateValue rule d.probe
  | .registryKey => evaluateKey rule d.probe
  | .serviceState => evaluateService rule d.probe
  | .fileExists => evaluateFile rule d.probe
  | .powerShellScript => evaluateScript rule d.probe d.scriptTimeout

/-- The evaluator of a rule, if its kind is known. -/
def evaluatorOf (d : Detector μ) (rule : Rule) : Option (Call μ (Outcome Number)) :=
  match Assoc.get? (Text.fold rule.type) d.evaluators with
  | some evaluate => some (evaluate rule)
  | none => (Labelled.parse? rule.type).map fun kind => d.evaluateAs kind rule

/-- Evaluates one rule.  A malformed rule is unmatched. -/
def evaluateRule (d : Detector μ) (rule : Rule) : Call μ (Outcome Number) :=
  match d.evaluatorOf rule with
  | none => return ⟨false, .float 0, "Unknown rule type: " ++ rule.type⟩
  | some evaluate => do
    match ← evaluate.attempt with
    | .ok o => return o
    | .error (.malformed cause) =>
      let text := "Invalid " ++ rule.type ++ " rule: " ++ cause.message
      Host.say .debug speaker text
      return ⟨false, .float 0, text⟩
    | .error f => throw f

/-- The status of a tweak without rules: changes of the registry are taken as not made. -/
def guess (tweak : Tweak) : Status :=
  if tweak.operations.registry.isEmpty then
    { tweakId := tweak.id, message := "No detection rules defined" }
  else
    { tweakId := tweak.id
      canDetect := true
      confidence := .float operationConfidence
      message := "Detection based on registry operations (basic analysis)" }

/-- The status that the rules of a tweak give. -/
def evaluateRules (d : Detector μ) (tweak : Tweak) (rules : RuleSet) : Call μ Status := do
  if rules.logic = .custom then
    Host.say .debug speaker ("Custom logic for " ++ tweak.id ++
      " is not evaluated, combining as ALL: " ++ rules.customLogic.quoted)
  let outcomes ← rules.rules.mapM d.evaluateRule
  let combined := Outcome.combine rules.logic outcomes
  return {
    tweakId := tweak.id
    isApplied := combined.matched
    canDetect := true
    confidence := combined.confidence
    message := combined.message }

/-- The status of a tweak, unless something goes wrong. -/
def detect (d : Detector μ) (tweak : Tweak) : Call μ Status :=
  match Assoc.get? tweak.key d.wellKnown with
  | some detector => detector tweak d.probe
  | none => match tweak.rules with
    | none => return guess tweak
    | some rules => if rules.rules.isEmpty then return guess tweak else d.evaluateRules tweak rules

/-- The status of a tweak that could not be detected. -/
def fallbackStatus (tweak : Tweak) (failure : Failure) : Status :=
  let fallback := (tweak.rules.map RuleSet.fallback).getD {}
  { tweakId := tweak.id
    isApplied := fallback.isApplied
    confidence := .float fallback.confidence
    message := fallback.message.display ++ ": " ++ failure.message }

/-- A verdict in the log. -/
def verdictText (tweakId : String) (s : Status) : String :=
  tweakId ++ " | " ++ s.label ++ " | confidence " ++ Decimal.fixed 2 s.confidence.toFloat ++
    " | " ++ s.message

/-- Detects whether a tweak is applied. -/
def evaluate (d : Detector μ) (tweak : Tweak) : Call μ Status := do
  let status ← match ← (d.detect tweak).attempt with
    | .ok status => pure status
    | .error failure => do
      Host.say .warning speaker
        ("Detection failed for " ++ tweak.id ++ ", using fallback: " ++ failure.message)
      pure (fallbackStatus tweak failure)
  let status := { status with lastChecked := ← Host.now }
  Host.say .info verdictSpeaker (verdictText tweak.id status)
  return status

/-- The statuses of several tweaks under their identifiers. -/
def evaluateBatch (d : Detector μ) (tweaks : List Tweak) : Call μ (Assoc String Status) := do
  return Assoc.ofList (← tweaks.mapM fun t => do return (t.id, ← d.evaluate t))

/-- The statuses of several tweaks in order. -/
def scan (d : Detector μ) (tweaks : List Tweak) : Call μ (List Status) := do
  let start ← Host.now
  let statuses ← tweaks.mapM d.evaluate
  let elapsed ← Host.millisSince start
  Host.say .info speaker ("Scanned " ++ toString statuses.length ++ " tweaks in " ++
    Decimal.fixed 1 elapsed ++ "ms")
  return statuses

end Detector
end TweakEngine
