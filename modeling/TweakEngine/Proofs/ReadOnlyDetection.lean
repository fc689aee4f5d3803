/-
# Detection only reads

A detector asks a probe, and it only reads when the probe does and when the evaluators and
detectors that it has for single kinds of rules and single tweaks do (`Detector.ReadOnly`).
The probe of a machine and the built-in detectors are of this sort, so that an engine which
looks whether a tweak is applied has changed nothing when it knows
(`Engine.alreadyApplied_keeps`).
-/

import TweakEngine.Detection.WellKnown
import TweakEngine.Proofs.Tables
import TweakEngine.Proofs.TweakCalls

namespace TweakEngine

variable {μ : Type}

/-- The machine and the disk of a host. -/
def Host.grounds (h : Host μ) : μ × Disk := (h.machine, h.disk)

theorem Act.Keeps.mapM {σ α β γ : Type} {f : σ → γ} {k : α → Act σ β} (hk : ∀ x, (k x).Keeps f) :
    ∀ xs : List α, (xs.mapM k).Keeps f
  | [] => .pure _
  | x :: xs => by
    rw [List.mapM_cons]
    exact .bind (hk x) fun _ => .bind (mapM hk xs) fun _ => .pure _

/-- Asking leaves the machine and the disk. -/
structure Probe.ReadOnly (probe : Probe μ) : Prop where
  readValue : ∀ hive path name, (probe.readValue hive path name).Keeps Host.grounds
  keyExists : ∀ hive path, (probe.keyExists hive path).Keeps Host.grounds
  queryService : ∀ service, (probe.queryService service).Keeps Host.grounds
  pathExists : ∀ path, (probe.pathExists path).Keeps Host.grounds
  runDiagnostic : ∀ script timeout, (probe.runDiagnostic script timeout).Keeps Host.grounds

/-- Everything that a detector asks leaves the machine and the disk. -/
structure Detector.ReadOnly (d : Detector μ) : Prop where
  probe : d.probe.ReadOnly
  evaluators : ∀ kind evaluate, Assoc.get? kind d.evaluators = some evaluate →
    ∀ rule, (evaluate rule).Keeps Host.grounds
  wellKnown : ∀ key detect, Assoc.get? key d.wellKnown = some detect →
    ∀ t, (detect t d.probe).Keeps Host.grounds

namespace Detection

variable {probe : Probe μ}

theorem keeps_evaluateValue (h : probe.ReadOnly) (rule : Rule) :
    (evaluateValue rule probe).Keeps Host.grounds := by
  unfold evaluateValue
  split
  · exact .pure _
  · refine .bind (.result _) fun hive => .bind (h.readValue _ _ _) fun r => ?_
    split <;> exact .pure _

theorem keeps_evaluateKey (h : probe.ReadOnly) (rule : Rule) :
    (evaluateKey rule probe).Keeps Host.grounds := by
  unfold evaluateKey
  split
  · exact .pure _
  · exact .bind (.result _) fun hive => .bind (h.keyExists _ _) fun _ => .pure _

theorem keeps_evaluateService (h : probe.ReadOnly) (rule : Rule) :
    (evaluateService rule probe).Keeps Host.grounds := by
  unfold evaluateService
  split
  · exact .pure _
  · refine .bind (h.queryService _) fun snapshot => ?_
    split
    · exact .pure _
    · refine .bind (.result _) fun expected => ?_
      split
      · exact .pure _
      · dsimp only
        split
        · exact .pure _
        · exact .bind (.result _) fun _ => .pure _

theorem keeps_evaluateFile (h : probe.ReadOnly) (rule : Rule) :
    (evaluateFile rule probe).Keeps Host.grounds := by
  unfold evaluateFile
  split
  · exact .pure _
  · exact .bind (h.pathExists _) fun _ => .pure _

theorem keeps_evaluateScript (h : probe.ReadOnly) (rule : Rule) (timeout : Datum) :
    (evaluateScript rule probe timeout).Keeps Host.grounds := by
  unfold evaluateScript
  refine .bind (.result _) fun script => ?_
  split
  · exact .pure _
  · refine .bind (h.runDiagnostic _ _) fun r => ?_
    split
    · exact .pure _
    · dsimp only
      split
      · exact .pure _
      · split
        · exact .throw _
        · exact .pure _

end Detection

/-- The evaluator of a rule is a custom one, or that of a kind. -/
theorem Detector.evaluatorOf_sorts {d : Detector μ} {rule : Rule} {evaluate : Call μ (Outcome Number)}
    (h : d.evaluatorOf rule = some evaluate) :
    (∃ custom, Assoc.get? (Text.fold rule.type) d.evaluators = some custom ∧
      evaluate = custom rule) ∨ ∃ kind, evaluate = d.evaluateAs kind rule := by
  unfold evaluatorOf at h
  split at h
  · next custom hfound => exact .inl ⟨custom, hfound, (Option.some.inj h).symm⟩
  · obtain ⟨kind, -, rfl⟩ := Option.map_eq_some_iff.mp h
    exact .inr ⟨kind, rfl⟩

namespace Detector.ReadOnly

open Detection

variable {d : Detector μ}

theorem evaluateRule (h : d.ReadOnly) (rule : Rule) : (d.evaluateRule rule).Keeps Host.grounds := by
  have hevaluator : ∀ evaluate, d.evaluatorOf rule = some evaluate →
      evaluate.Keeps Host.grounds := by
    intro evaluate heval
    obtain ⟨custom, hfound, rfl⟩ | ⟨kind, rfl⟩ := evaluatorOf_sorts heval
    · exact h.evaluators _ _ hfound rule
    · cases kind with
      | registryValue => exact keeps_evaluateValue h.probe rule
      | registryKey => exact keeps_evaluateKey h.probe rule
      | serviceState => exact keeps_evaluateService h.probe rule
      | fileExists => exact keeps_evaluateFile h.probe rule
      | powerShellScript => exact keeps_evaluateScript h.probe rule _
  unfold Detector.evaluateRule
  split
  · exact .pure _
  · next evaluate heval =>
    refine .bind (hevaluator evaluate heval).attempt fun r => ?_
    split
    · exact .pure _
    · exact .bind (fun _ => rfl) fun _ => .pure _
    · exact .throw _

theorem evaluateRules (h : d.ReadOnly) (t : Tweak) (rules : RuleSet) :
    (d.evaluateRules t rules).Keeps Host.grounds := by
  unfold Detector.evaluateRules
  dsimp only
  split
  · exact .bind (fun _ => rfl) fun _ => .bind (.mapM h.evaluateRule _) fun _ => .pure _
  · exact .bind (.mapM h.evaluateRule _) fun _ => .pure _

/-- Detecting whether a tweak is applied leaves the machine and the disk. -/
theorem evaluate (h : d.ReadOnly) (t : Tweak) : (d.evaluate t).Keeps Host.grounds := by
  have hdetect : (d.detect t).Keeps Host.grounds := by
    unfold detect
    split
    · next detector hfound => exact h.wellKnown _ _ hfound t
    · split
      · exact .pure _
      · split
        · exact .pure _
        · exact h.evaluateRules t _
  have hrest : ∀ status : Status, Act.Keeps Host.grounds (do
      let status := { status with lastChecked := ← Host.now }
      Host.say .info verdictSpeaker (verdictText t.id status)
      return status : Call μ Status) := fun _ =>
    .bind (fun _ => rfl) fun _ => .bind (fun _ => rfl) fun _ => .pure _
  unfold Detector.evaluate
  refine .bind hdetect.attempt fun r => ?_
  split
  · exact hrest _
  · exact .bind (fun _ => rfl) fun _ => hrest _

end Detector.ReadOnly

/-! ## The detectors of the program -/

section

variable {probe : Probe μ}

theorem Detection.keeps_checkRun (h : probe.ReadOnly) (c : Check) :
    (c.run probe).Keeps Host.grounds :=
  .bind (h.readValue _ _ _) fun _ => .pure _

theorem Detection.keeps_anyValue (h : probe.ReadOnly) (a : AnyValue) (t : Tweak) :
    (a.detect t probe).Keeps Host.grounds := by
  unfold AnyValue.detect
  refine .bind (h.keyExists _ _) fun there => ?_
  split
  · exact .pure _
  · exact .bind (.mapM (fun _ => keeps_checkRun h _) _) fun _ => .pure _

theorem Detection.keeps_checklist (h : probe.ReadOnly) (l : Checklist) (t : Tweak) :
    (l.detect t probe).Keeps Host.grounds :=
  .bind (.mapM (fun _ => keeps_checkRun h _) _) fun _ => .bind (fun _ => rfl) fun _ => .pure _

/-- The built-in detectors look for one of several values or go through a checklist. -/
theorem Detection.wellKnown_sorts {key : String} {detect : Tweak → Probe μ → Call μ Status}
    (h : (key, detect) ∈ wellKnown (μ := μ)) :
    (∃ a : AnyValue, detect = a.detect) ∨ ∃ l : Checklist, detect = l.detect := by
  simp only [wellKnown, List.mem_append, List.mem_map] at h
  obtain (⟨_, -, h⟩ | ⟨_, -, h⟩) | ⟨_, -, h⟩ := h
  · exact .inl ⟨darkMode, (Prod.mk.inj h).2.symm⟩
  · exact .inl ⟨endTask, (Prod.mk.inj h).2.symm⟩
  · exact .inr ⟨telemetry, (Prod.mk.inj h).2.symm⟩

theorem Detector.over_wellKnown {useWellKnown : Bool} {timeout : Datum} {key : String}
    {detect : Tweak → Probe μ → Call μ Status}
    (h : Assoc.get? key (Detector.over probe useWellKnown timeout).wellKnown = some detect) :
    (∃ a : Detection.AnyValue, detect = a.detect) ∨ ∃ l : Detection.Checklist, detect = l.detect := by
  cases useWellKnown with
  | false => cases h
  | true => exact Detection.wellKnown_sorts (Assoc.mem_of_get? h)

/-- The detectors that are built over a probe which only reads do so as well. -/
theorem Detector.over_readOnly (h : probe.ReadOnly) (useWellKnown : Bool) (timeout : Datum) :
    (Detector.over probe useWellKnown timeout).ReadOnly where
  probe := h
  evaluators := nofun
  wellKnown := by
    intro key detect hfound t
    rcases over_wellKnown hfound with ⟨a, rfl⟩ | ⟨l, rfl⟩
    · exact Detection.keeps_anyValue h a t
    · exact Detection.keeps_checklist h l t

end

theorem Machine.keeps_ask {α : Type} (r : Request) (f : Machine → Except Failure α) :
    (Machine.ask r f).Keeps Host.grounds := by
  refine .bind (fun _ => rfl) fun fault? => ?_
  split
  · exact .throw _
  · exact .bind (fun _ => rfl) fun _ => .result _

/-- Asking a machine changes nothing of it. -/
theorem Machine.probe_readOnly : Machine.probe.ReadOnly where
  readValue _ _ _ := keeps_ask _ _
  keyExists _ _ := keeps_ask _ _
  queryService _ := keeps_ask _ _
  pathExists _ := keeps_ask _ _
  runDiagnostic _ _ := .bind (keeps_ask _ _) fun _ => .bind (fun _ => rfl) fun _ => .pure _

namespace Engine

/-- The detector of an engine, if it has one, only reads. -/
def ReadOnlyDetector (e : Engine μ) : Prop := ∀ d, e.detector = some d → d.ReadOnly

theorem readOnlyDetector_of_none {e : Engine μ} (h : e.detector = none) : e.ReadOnlyDetector :=
  fun d hd => by
    rw [h] at hd
    cases hd

/-- **Looking whether a tweak is applied** leaves the machine, the files, the captures and the
store as they are. -/
theorem alreadyApplied_keeps {e : Engine μ} (h : e.ReadOnlyDetector) (t : Tweak) :
    (Session.onHost (e.alreadyApplied t)).Keeps Session.core := by
  have hlook : (e.alreadyApplied t).Keeps Host.grounds := by
    unfold alreadyApplied
    split
    · next d _ hd =>
      refine .bind ((h d hd).evaluate t) fun status => ?_
      split
      · exact .bind (fun _ => rfl) fun _ => .pure _
      · exact .pure _
    · exact .pure _
  intro s
  obtain ⟨hmachine, hdisk⟩ := Prod.mk.inj (hlook s.host)
  exact congrArg₂ (fun m d => Core.mk m d s.memory s.store) hmachine hdisk

end Engine
end TweakEngine
