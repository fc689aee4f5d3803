/-
# Steady answers

A probe is steady when the answer to a question, or the failure to answer it, is settled by the
question and by something of the host that asking leaves as it was (`Probe.Steady`).  That may be
the machine, or nothing at all.  What a detector makes of a rule is steady when its probe is
(`Detector.Steady.evaluateRule`), and each grade that it gives is a finite double.

The probe of a machine is steady in the machine, and so are the detectors that are built over it.
-/

import TweakEngine.Proofs.DoubleOrder
import TweakEngine.Proofs.ReadOnlyDetection
import TweakEngine.Proofs.Requests

namespace TweakEngine

variable {σ μ α β γ : Type}

/-! ## Settled results -/

namespace Act

/-- The result of the action is settled by what `view` shows, which the action leaves as it was,
and a value that it gives has the property `P`. -/
structure Settled (view : σ → γ) (P : α → Prop) (a : Act σ α) : Prop where
  same : ∀ s t, view s = view t → (a.on s).1 = (a.on t).1
  keeps : a.Keeps view
  gives : ∀ s x, (a.on s).1 = .ok x → P x

/-- The result of the action is settled by what `view` shows. -/
abbrev Steady (view : σ → γ) (a : Act σ α) : Prop := a.Settled view fun _ => True

namespace Settled

variable {view : σ → γ} {P : α → Prop} {Q : β → Prop} {a : Act σ α}

theorem pure {x : α} (h : P x) : Settled view P (Pure.pure x : Act σ α) where
  same _ _ _ := rfl
  keeps := .pure x
  gives _ _ hx := Except.ok.inj hx ▸ h

theorem throw (f : Failure) : Settled view P (MonadExcept.throw f : Act σ α) where
  same _ _ _ := rfl
  keeps := .throw f
  gives _ _ := nofun

theorem result (r : Except Failure α) : Steady view (Act.result r : Act σ α) where
  same _ _ _ := rfl
  keeps := .result r
  gives _ _ _ := trivial

theorem bind {k : α → Act σ β} (ha : Settled view P a) (hk : ∀ x, P x → Settled view Q (k x)) :
    Settled view Q (a >>= k) where
  same s t hst := by
    have hsame := ha.same s t hst
    have hkept : view (a.on s).2 = view (a.on t).2 :=
      ((ha.keeps s).trans hst).trans (ha.keeps t).symm
    have hgives := ha.gives s
    rw [on_bind, on_bind]
    revert hsame hkept hgives
    rcases a.on s with ⟨f | x, s₁⟩ <;> rcases a.on t with ⟨f' | x', t₁⟩ <;>
      intro hsame hkept hgives <;> cases hsame
    · rfl
    · exact (hk x (hgives x rfl)).same s₁ t₁ hkept
  keeps := Along.bind_of (Q := fun s t => view t = view s) (fun h₁ h₂ => h₂.trans h₁) ha.keeps
    (fun s x t h => ha.gives s x (congrArg Prod.fst h)) fun x hx => (hk x hx).keeps
  gives s y hy := by
    obtain ⟨x, t, hx, hy⟩ := ok_of_on_bind (Prod.ext hy rfl)
    exact (hk x (ha.gives s x (congrArg Prod.fst hx))).gives t y (congrArg Prod.fst hy)

theorem attempt (h : Settled view P a) :
    Settled view (fun r => ∀ x, r = .ok x → P x) a.attempt where
  same s t hst := congrArg Except.ok (h.same s t hst)
  keeps := h.keeps.attempt
  gives s _ hr x hx := h.gives s x ((Except.ok.inj hr).trans hx)

theorem mapM {k : β → Act σ α} (hk : ∀ x, Settled view P (k x)) :
    ∀ xs : List β, Settled view (fun ys => ∀ y ∈ ys, P y) (xs.mapM k)
  | [] => pure (List.forall_mem_nil P)
  | x :: xs => by
    rw [List.mapM_cons]
    exact bind (hk x) fun y hy => bind (mapM hk xs) fun ys hys =>
      pure (List.forall_mem_cons.mpr ⟨hy, hys⟩)

/-- **Steady questions have their answers each for itself**: going through a list of them gives what
each of them gives alone. -/
theorem mapM_each {k : β → Act σ α} (hk : ∀ x, Settled view P (k x)) {s t : σ}
    (hst : view s = view t) :
    ∀ xs : List β, ((xs.mapM k).on s).1 = xs.mapM fun x => ((k x).on t).1
  | [] => rfl
  | x :: xs => by
    have hsame := (hk x).same s t hst
    have hkept := ((hk x).keeps s).trans hst
    rw [List.mapM_cons, List.mapM_cons, ← hsame, on_bind]
    revert hkept
    rcases (k x).on s with ⟨f | y, s₁⟩ <;> intro hkept
    · rfl
    · dsimp only
      rw [on_bind, ok_bind, ← mapM_each hk hkept xs]
      rcases (xs.mapM k).on s₁ with ⟨f | ys, s₂⟩ <;> rfl

end Settled
end Act

/-! ## Steady probes -/

/-- What the probe answers, or that it fails, is settled by what it is asked and by what `view`
shows of the host. -/
structure Probe.Steady (p : Probe μ) (view : Host μ → γ) : Prop where
  readValue : ∀ hive path name, (p.readValue hive path name).Steady view
  keyExists : ∀ hive path, (p.keyExists hive path).Steady view
  queryService : ∀ service, (p.queryService service).Steady view
  pathExists : ∀ path, (p.pathExists path).Steady view
  runDiagnostic : ∀ script timeout, (p.runDiagnostic script timeout).Steady view

/-- A finite double. -/
def Number.IsProper (a : Number) : Prop := ∃ x, a = .float x ∧ x.isFinite = true

/-- What a detector asks is steady, and the evaluators that it has for single kinds of rules give
proper grades.  Detectors for single tweaks pass over the rules.  Messages are not looked at. -/
structure Detector.Steady (d : Detector μ) (view : Host μ → γ) : Prop where
  report : ∀ m, (Host.report m : Call μ Unit).Keeps view
  probe : d.probe.Steady view
  evaluators : ∀ key evaluate, Assoc.get? key d.evaluators = some evaluate →
    ∀ rule, (evaluate rule).Settled view fun o => o.confidence.IsProper
  wellKnown : ∀ key detect, Assoc.get? key d.wellKnown = some detect →
    ∀ t, (detect t d.probe).Steady view ∧
      ∀ rules, detect { t with rules } d.probe = detect t d.probe

namespace Detection

variable {probe : Probe μ} {view : Host μ → γ}

/-- An outcome with a finite grade, or a failure, that is settled by what is seen. -/
abbrev Judged (view : Host μ → γ) (a : Call μ (Outcome Number)) : Prop :=
  a.Settled view fun o => o.confidence.IsProper

theorem judged_outcome (rule : Rule) (holds : Bool) (observed : String) :
    Judged view (pure (outcome rule holds observed)) :=
  .pure ⟨_, rfl, isFinite_clamp _⟩

theorem judged_incomplete (what : String) : Judged view (pure (incomplete what)) :=
  .pure ⟨0, rfl, rfl⟩

theorem judged_evaluateValue (hp : probe.Steady view) (rule : Rule) :
    Judged view (evaluateValue rule probe) := by
  unfold evaluateValue
  split
  · exact judged_incomplete _
  · refine .bind (.result _) fun hive _ => .bind (hp.readValue _ _ _) fun r _ => ?_
    split <;> exact judged_outcome _ _ _

theorem judged_evaluateKey (hp : probe.Steady view) (rule : Rule) :
    Judged view (evaluateKey rule probe) := by
  unfold evaluateKey
  split
  · exact judged_incomplete _
  · exact .bind (.result _) fun hive _ => .bind (hp.keyExists _ _) fun _ _ => judged_outcome _ _ _

theorem judged_evaluateService (hp : probe.Steady view) (rule : Rule) :
    Judged view (evaluateService rule probe) := by
  unfold evaluateService
  split
  · exact judged_incomplete _
  refine .bind (hp.queryService _) fun snapshot _ => ?_
  split
  · exact judged_outcome _ _ _
  refine .bind (.result _) fun expected _ => ?_
  split
  · exact judged_outcome _ _ _
  dsimp only
  split
  · exact judged_outcome _ _ _
  · exact .bind (.result _) fun _ _ => judged_outcome _ _ _

theorem judged_evaluateFile (hp : probe.Steady view) (rule : Rule) :
    Judged view (evaluateFile rule probe) := by
  unfold evaluateFile
  split
  · exact judged_incomplete _
  · exact .bind (hp.pathExists _) fun _ _ => judged_outcome _ _ _

theorem judged_evaluateScript (hp : probe.Steady view) (rule : Rule) (timeout : Datum) :
    Judged view (evaluateScript rule probe timeout) := by
  unfold evaluateScript
  refine .bind (.result _) fun script _ => ?_
  split
  · exact judged_incomplete _
  refine .bind (hp.runDiagnostic _ _) fun r _ => ?_
  split
  · exact judged_outcome _ _ _
  dsimp only
  split
  · exact judged_outcome _ _ _
  split
  · exact .throw _
  · exact judged_outcome _ _ _

end Detection
namespace Detector

open Detection

variable {d : Detector μ} {view : Host μ → γ}

theorem Steady.say (h : d.Steady view) (level : Level) (speaker text : String) :
    (Host.say level speaker text : Call μ Unit).Steady view where
  same _ _ _ := rfl
  keeps := h.report _
  gives _ _ _ := trivial

/-- **What a steady detector makes of a rule** is settled by the rule and by what is seen. -/
theorem Steady.evaluateRule (h : d.Steady view) (rule : Rule) :
    Judged view (d.evaluateRule rule) := by
  have hevaluator : ∀ evaluate, d.evaluatorOf rule = some evaluate → Judged view evaluate := by
    intro evaluate heval
    obtain ⟨custom, hfound, rfl⟩ | ⟨kind, rfl⟩ := evaluatorOf_sorts heval
    · exact h.evaluators _ _ hfound rule
    · cases kind with
      | registryValue => exact judged_evaluateValue h.probe rule
      | registryKey => exact judged_evaluateKey h.probe rule
      | serviceState => exact judged_evaluateService h.probe rule
      | fileExists => exact judged_evaluateFile h.probe rule
      | powerShellScript => exact judged_evaluateScript h.probe rule _
  unfold Detector.evaluateRule
  split
  · exact .pure ⟨0, rfl, rfl⟩
  · next evaluate heval =>
    refine .bind (hevaluator evaluate heval).attempt fun r hr => ?_
    split
    · exact .pure (hr _ rfl)
    · exact .bind (h.say _ _ _) fun _ _ => .pure ⟨0, rfl, rfl⟩
    · exact .throw _

end Detector

/-! ## The detectors of the program -/

section

variable {probe : Probe μ} {view : Host μ → γ}

theorem Detection.steady_checkRun (hp : probe.Steady view) (c : Check) :
    (c.run probe).Steady view :=
  .bind (hp.readValue _ _ _) fun _ _ => .pure trivial

theorem Detection.steady_anyValue (hp : probe.Steady view) (a : AnyValue) (t : Tweak) :
    (a.detect t probe).Steady view := by
  unfold AnyValue.detect
  refine .bind (hp.keyExists _ _) fun there _ => ?_
  split
  · exact .pure trivial
  · exact .bind (.mapM (fun _ => steady_checkRun hp _) _) fun _ _ => .pure trivial

theorem Detection.steady_checklist (hp : probe.Steady view)
    (hreport : ∀ m, (Host.report m : Call μ Unit).Keeps view) (l : Checklist) (t : Tweak) :
    (l.detect t probe).Steady view :=
  .bind (.mapM (fun _ => steady_checkRun hp _) _) fun _ _ =>
    .bind ⟨fun _ _ _ => rfl, hreport _, fun _ _ _ => trivial⟩ fun _ _ => .pure trivial

/-- The detectors that are built over a steady probe are steady. -/
theorem Detector.over_steady (hp : probe.Steady view)
    (hreport : ∀ m, (Host.report m : Call μ Unit).Keeps view) (useWellKnown : Bool)
    (timeout : Datum) : (Detector.over probe useWellKnown timeout).Steady view where
  report := hreport
  probe := hp
  evaluators := nofun
  wellKnown := by
    intro key detect hfound t
    rcases over_wellKnown hfound with ⟨a, rfl⟩ | ⟨l, rfl⟩
    · exact ⟨Detection.steady_anyValue hp a t, fun _ => rfl⟩
    · exact ⟨Detection.steady_checklist hp hreport l t, fun _ => rfl⟩

end

namespace Machine

theorem steady_ask (r : Request) (f : Machine → Except Failure α) :
    (ask r f).Steady Host.machine where
  same h h' hh := by
    rw [on_ask, on_ask]
    dsimp only
    rw [hh]
  keeps h := by rw [on_ask]
  gives _ _ _ := trivial

/-- What a machine answers is settled by the machine. -/
theorem probe_steady : probe.Steady Host.machine where
  readValue _ _ _ := steady_ask _ _
  keyExists _ _ := steady_ask _ _
  queryService _ := steady_ask _ _
  pathExists _ := steady_ask _ _
  runDiagnostic _ _ := .bind (steady_ask _ _) fun _ _ =>
    .bind ⟨fun _ _ _ => rfl, fun _ => rfl, fun _ _ _ => trivial⟩ fun _ _ => .pure trivial

end Machine
end TweakEngine
