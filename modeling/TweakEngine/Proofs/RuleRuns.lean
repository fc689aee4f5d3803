/-
# What detection makes of its rules

The status of a tweak with rules comes out of one run through the rules: either every rule has an
outcome and the outcomes are combined (`Detector.verdict_of_ok`), or a rule fails and the fallback
is given (`Detector.verdict_of_error`).  A rule of a built-in kind is settled by what its evaluator
gives: an outcome stands, and so does a malformed rule with an outcome of its own, and any other
failure is passed on (`Detector.evaluateRule_builtIn`).

`Probe.Answers` says that a probe answers whatever it is asked.
-/

import TweakEngine.Detection.Detector
import TweakEngine.Proofs.SaidFailures

namespace TweakEngine

variable {μ : Type}

/-- Of a list of outcomes any has to match, or else all. -/
theorem Outcome.combine_matched {α : Type} [Graded α] (logic : Logic) {os : List (Outcome α)}
    (hne : os ≠ []) : (combine logic os).matched =
      if logic = .any then os.any Outcome.matched else os.all Outcome.matched := by
  obtain ⟨o, os, rfl⟩ := List.exists_cons_of_ne_nil hne
  cases logic with
  | all | custom => rfl
  | any =>
    rw [Bool.eq_iff_iff, if_pos rfl, List.any_eq_true]
    dsimp only [combine]
    rw [Bool.not_eq_true', List.isEmpty_eq_false_iff, Ne, List.filter_eq_nil_iff]
    push Not
    rfl

/-- The fields that a rule of a kind has to have. -/
def Rule.required (rule : Rule) : RuleKind → List Datum
  | .registryValue => [rule.hive, rule.keyPath, rule.valueName]
  | .registryKey => [rule.hive, rule.keyPath]
  | .serviceState => [rule.service]
  | .fileExists => [rule.filePath]
  | .powerShellScript => [rule.script]

/-- The probe answers whatever it is asked, and the output of a script is a text. -/
structure Probe.Answers (p : Probe μ) : Prop where
  readValue : ∀ hive path name h, (p.readValue hive path name).Returns h
  keyExists : ∀ hive path h, (p.keyExists hive path).Returns h
  queryService : ∀ service h, (p.queryService service).Returns h
  pathExists : ∀ path h, (p.pathExists path).Returns h
  runDiagnostic : ∀ script timeout h, ∃ r h',
    (p.runDiagnostic script timeout).on h = (.ok r, h') ∧ r.stdout ≠ none

namespace Detection

theorem trimmed_text {s : String} (hs : s ≠ "") : trimmed (.text s) = .ok (Text.trim s) := by
  have htruthy : (Datum.text s).truthy = true := bne_iff_ne.mpr hs
  unfold trimmed
  rw [htruthy]
  rfl

theorem trimmed_of_not_truthy {d : Datum} (hd : d.truthy = false) : trimmed d = .ok "" := by
  unfold trimmed
  rw [hd]
  rfl

end Detection

/-- A probe that finds a value denied, a key missing, a service stopped and a path taken, and whose
scripts time out. -/
def wornProbe : Probe Unit where
  readValue _ _ _ := pure (.denied "Access is denied")
  keyExists _ _ := pure false
  queryService service :=
    pure { name := service, found := true, state := .stopped, startup := .manual }
  pathExists _ := pure true
  runDiagnostic _ _ := pure { exitCode := none, timedOut := true }

theorem wornProbe_answers : wornProbe.Answers where
  readValue _ _ _ h := ⟨_, h, rfl⟩
  keyExists _ _ h := ⟨_, h, rfl⟩
  queryService _ h := ⟨_, h, rfl⟩
  pathExists _ h := ⟨_, h, rfl⟩
  runDiagnostic _ _ h := ⟨_, h, rfl, nofun⟩

/-- A detector that goes by that probe. -/
def wornDetector : Detector Unit := { probe := wornProbe }

/-- The tweak with another rule set. -/
def Tweak.withRules (t : Tweak) (rs : RuleSet) : Tweak := { t with rules := some rs }

namespace Detector

open Detection

variable {d : Detector μ} {t : Tweak} {rs : RuleSet} {rule : Rule}

/-! ## One rule -/

/-- What is made of what the evaluator of a rule gives. -/
def settle (rule : Rule) (r : Except Failure (Outcome Number)) : Call μ (Outcome Number) :=
  match r with
  | .ok o => return o
  | .error (.malformed cause) => do
    let text := "Invalid " ++ rule.type ++ " rule: " ++ cause.message
    Host.say .debug speaker text
    return ⟨false, .float 0, text⟩
  | .error f => throw f

/-- A rule of a built-in kind without an evaluator of its own. -/
theorem evaluateRule_builtIn (hcustom : Assoc.get? (Text.fold rule.type) d.evaluators = none)
    {kind : RuleKind} (hkind : Labelled.parse? rule.type = some kind) :
    d.evaluateRule rule = (d.evaluateAs kind rule).attempt >>= settle rule := by
  have hevaluator : d.evaluatorOf rule = some (d.evaluateAs kind rule) := by
    rw [evaluatorOf, hcustom, hkind]
    rfl
  unfold evaluateRule
  rw [hevaluator]
  refine bind_congr fun r => ?_
  rcases r with f | o
  · cases f <;> rfl
  · rfl

/-- An outcome stands. -/
theorem evaluateRule_of_ok (hcustom : Assoc.get? (Text.fold rule.type) d.evaluators = none)
    {kind : RuleKind} (hkind : Labelled.parse? rule.type = some kind) {h h' : Host μ}
    {o : Outcome Number} (ho : (d.evaluateAs kind rule).on h = (.ok o, h')) :
    (d.evaluateRule rule).on h = (.ok o, h') := by
  rw [evaluateRule_builtIn hcustom hkind, Act.on_bind, Act.on_attempt, ho]
  rfl

/-! ## A tweak with rules -/

/-- The host when the rules of a tweak are gone through: logic of its own is said first. -/
def announced (t : Tweak) (rs : RuleSet) (h : Host μ) : Host μ :=
  if rs.logic = .custom then
    ((Host.say .debug speaker ("Custom logic for " ++ t.id ++
      " is not evaluated, combining as ALL: " ++ rs.customLogic.quoted)).on h).2
  else h

/-- The status that the outcomes of the rules of a tweak give. -/
def ruled (t : Tweak) (logic : Logic) (os : List (Outcome Number)) : Status :=
  let combined := Outcome.combine logic os
  { tweakId := t.id
    isApplied := combined.matched
    canDetect := true
    confidence := combined.confidence
    message := combined.message }

theorem evaluateRules_on (d : Detector μ) (t : Tweak) (rs : RuleSet) (h : Host μ) :
    (d.evaluateRules t rs).on h =
      (ruled t rs.logic <$> ((rs.rules.mapM d.evaluateRule).on (announced t rs h)).1,
        ((rs.rules.mapM d.evaluateRule).on (announced t rs h)).2) := by
  have hrest : ∀ h : Host μ, Act.on (do
        let outcomes ← rs.rules.mapM d.evaluateRule
        let combined := Outcome.combine rs.logic outcomes
        return {
          tweakId := t.id
          isApplied := combined.matched
          canDetect := true
          confidence := combined.confidence
          message := combined.message } : Call μ Status) h =
      (ruled t rs.logic <$> ((rs.rules.mapM d.evaluateRule).on h).1,
        ((rs.rules.mapM d.evaluateRule).on h).2) := fun h => by
    rw [Act.on_bind]
    rcases (rs.rules.mapM d.evaluateRule).on h with ⟨f | os, h'⟩ <;> rfl
  unfold evaluateRules announced
  split
  · rw [Act.on_bind]
    exact hrest _
  · exact hrest h

/-- A tweak with rules that no detector speaks for is detected by its rules. -/
theorem detect_ruled (hknown : Assoc.get? t.key d.wellKnown = none) (ht : t.rules = some rs)
    (hne : rs.rules ≠ []) : d.detect t = d.evaluateRules t rs := by
  have hempty : rs.rules.isEmpty = false := List.isEmpty_eq_false_iff.mpr hne
  rw [detect, hknown, ht]
  dsimp only
  rw [hempty, if_neg Bool.false_ne_true]

/-- The status of a tweak before it is dated. -/
def verdict (d : Detector μ) (t : Tweak) (h : Host μ) : Status :=
  match ((d.detect t).on h).1 with
  | .ok st => st
  | .error f => fallbackStatus t f

/-- Evaluating a tweak dates its status. -/
theorem evaluate_on (d : Detector μ) (t : Tweak) (h : Host μ) : ∃ h', (d.evaluate t).on h =
    (.ok { d.verdict t h with lastChecked := ((d.detect t).on h).2.clock }, h') := by
  rw [evaluate, verdict, Act.on_bind, Act.on_attempt]
  rcases (d.detect t).on h with ⟨f | st, h₁⟩ <;> exact ⟨_, rfl⟩

/-- **With an outcome for every rule** the outcomes are combined. -/
theorem verdict_of_ok (hknown : Assoc.get? t.key d.wellKnown = none) (ht : t.rules = some rs)
    (hne : rs.rules ≠ []) {h : Host μ} {os : List (Outcome Number)}
    (hrun : ((rs.rules.mapM d.evaluateRule).on (announced t rs h)).1 = .ok os) :
    d.verdict t h = ruled t rs.logic os := by
  rw [verdict, detect_ruled hknown ht hne, evaluateRules_on, hrun]
  rfl

/-- **When a rule fails** the fallback is given. -/
theorem verdict_of_error (hknown : Assoc.get? t.key d.wellKnown = none) (ht : t.rules = some rs)
    (hne : rs.rules ≠ []) {h : Host μ} {f : Failure}
    (hrun : ((rs.rules.mapM d.evaluateRule).on (announced t rs h)).1 = .error f) :
    d.verdict t h = fallbackStatus t f := by
  rw [verdict, detect_ruled hknown ht hne, evaluateRules_on, hrun]
  rfl

end Detector
end TweakEngine
