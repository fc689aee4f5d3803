/-
# Runs of steps

A step takes the core of a session to another one, and the run goes on unless the
step fails unexpectedly (`execute_of_step`) or the token is seen cancelled before it
(`execute_of_cancelled`); what later modules say of runs goes back to these two.
`Step.Takes` is the triple of one step, `Engine.Leads` the triple of a list of steps: a
run from `P` succeeds and ends in `Q`, or it is cut short, by a cancellation or an
unexpected failure, and ends in `W`.  Triples of lists are put together from those of
their parts (`Leads.append`), and a list of operations is gone through upwards or
downwards along an invariant that knows the position (`leads_upward`, `leads_downward`).
-/

import TweakEngine.Proofs.Actions
import Mathlib.Data.List.Induction

namespace TweakEngine

variable {μ : Type}

/-- Whether a run goes on after a step with this outcome. -/
def goesOn {α : Type} : Except Failure α → Bool
  | .ok _ => true
  | .error f => f.isOperational

/-- A step takes `P` to `Q`, or to `W` when the run ends with it. -/
def Step.Takes (st : Step μ) (P Q W : Core μ → Prop) : Prop :=
  ∀ s : Session μ, P s.core →
    if goesOn (st.run.on s).1 then Q (st.run.on s).2.core else W (st.run.on s).2.core

theorem Step.Takes.weaken {st : Step μ} {P Q W W' : Core μ → Prop} (h : st.Takes P Q W)
    (hW : ∀ c, W c → W' c) : st.Takes P Q W' := by
  intro s hs
  have := h s hs
  revert this
  cases goesOn (st.run.on s).1
  · exact hW _
  · exact id

namespace Session

theorem say_on (level : Level) (speaker text : String) (s : Session μ) :
    ∃ s', (say level speaker text : Work μ Unit).on s = (.ok (), s') ∧ s'.core = s.core :=
  ⟨_, rfl, rfl⟩

end Session

namespace Engine

open Session

/-- Running a step records its outcome and otherwise does what the step does. -/
theorem runStep_on (st : Step μ) (r : Result) (s : Session μ) :
    ∃ r' f? s', (runStep st r).on s = (.ok (r', f?), s') ∧ s'.core = (st.run.on s).2.core ∧
      s'.host.writes = (st.run.on s).2.host.writes ∧ s'.host.plans = (st.run.on s).2.host.plans ∧
      r'.success = r.success ∧ f?.isNone = goesOn (st.run.on s).1 ∧
      ∀ note?, (st.run.on s).1 = .ok note? → r'.failed = r.failed := by
  unfold runStep
  rw [Act.on_bind, Act.on_attempt]
  rcases st.run.on s with ⟨f | note?, s₁⟩
  · dsimp only
    cases hf : f.isOperational
    · exact ⟨_, _, _, rfl, rfl, rfl, rfl, rfl, by simp [goesOn, hf], nofun⟩
    · exact ⟨_, _, _, rfl, rfl, rfl, rfl, rfl, by simp [goesOn, hf], nofun⟩
  · cases note? with
    | none => exact ⟨_, _, _, rfl, rfl, rfl, rfl, rfl, rfl, fun _ _ => rfl⟩
    | some note => exact ⟨_, _, _, rfl, rfl, rfl, rfl, rfl, rfl, fun _ _ => rfl⟩

/-- A run of steps from `P` succeeds in `Q` or is cut short in `W`. -/
def Leads (cancelled : Session μ → Bool) (steps : List (Step μ)) (P Q W : Core μ → Prop) : Prop :=
  ∀ (r : Result) (s : Session μ), r.success = true → P s.core →
    ∃ r' s', (execute cancelled steps r).on s = (.ok r', s') ∧
      ((r'.success = true ∧ Q s'.core) ∨ (r'.success = false ∧ W s'.core))

variable {cancelled : Session μ → Bool} {steps more : List (Step μ)} {st : Step μ}
  {P Q R W : Core μ → Prop}

/-- The end of a run whose token is seen cancelled. -/
def stopRun (r : Result) : Work μ Result := do
  say .info speaker
    ("Cancelled " ++ r.tweakId ++ " after " ++ toString r.applied.length ++ " operations")
  return { r with
    success := false
    cancelled := true
    errorMessage := some Failure.stopped.message
    error := some Failure.stopped }

/-- The end of a run in which a step fails unexpectedly. -/
def breakRun (r : Result) (f : Failure) : Work μ Result := do
  onHost (Host.report
    { level := .error
      speaker
      text := "Unexpected error running " ++ r.tweakId
      failure := some f })
  return { r with
    success := false
    errorMessage := some ("Unexpected error: " ++ f.message)
    error := some f }

/-- Where the token is seen cancelled, no step is run. -/
theorem execute_of_cancelled {r : Result} {s : Session μ} (hs : cancelled s = true) :
    (execute cancelled (st :: steps) r).on s = (stopRun r).on s := by
  rw [execute, Act.on_bind, Act.on_view]
  dsimp only
  rw [hs, if_pos rfl]
  rfl

/-- Otherwise the next step is run, and the others after it unless it fails unexpectedly. -/
theorem execute_of_step {r r₁ : Result} {f? : Option Failure} {s s₁ : Session μ}
    (hs : cancelled s = false) (hstep : (runStep st r).on s = (.ok (r₁, f?), s₁)) :
    (execute cancelled (st :: steps) r).on s = match f? with
      | none => (execute cancelled steps r₁).on s₁
      | some f => (breakRun r₁ f).on s₁ := by
  rw [execute, Act.on_bind, Act.on_view]
  dsimp only
  rw [hs, if_neg Bool.false_ne_true, Act.on_bind_of_ok hstep]
  cases f? <;> rfl

theorem leads_nil : Leads cancelled [] P P W := fun r s hr hP => ⟨r, s, rfl, .inl ⟨hr, hP⟩⟩

theorem leads_cons (hc : ∀ s, cancelled s = true → P s.core → W s.core) (hst : st.Takes P Q W)
    (h : Leads cancelled steps Q R W) : Leads cancelled (st :: steps) P R W := by
  intro r s hr hP
  cases hs : cancelled s with
  | true =>
    rw [execute_of_cancelled hs]
    exact ⟨_, _, rfl, .inr ⟨rfl, hc s hs hP⟩⟩
  | false =>
    obtain ⟨r₁, f?, s₁, hrun, hcore, -, -, hsucc, hnone, -⟩ := runStep_on st r s
    have hQ := hst s hP
    rw [← hcore, ← hnone] at hQ
    rw [execute_of_step hs hrun]
    cases f? with
    | none => exact h r₁ s₁ (hsucc.trans hr) hQ
    | some f => exact ⟨_, _, rfl, .inr ⟨rfl, hQ⟩⟩

/-- Running two lists of steps one after the other. -/
theorem execute_append (r : Result) (s : Session μ) (hr : r.success = true) :
    (execute cancelled (steps ++ more) r).on s = match (execute cancelled steps r).on s with
      | (.ok r', s') => if r'.success then (execute cancelled more r').on s' else (.ok r', s')
      | (.error f, s') => (.error f, s') := by
  induction steps generalizing r s with
  | nil => simp [execute, hr]
  | cons st steps ih =>
    rw [List.cons_append]
    cases hs : cancelled s with
    | true =>
      rw [execute_of_cancelled hs, execute_of_cancelled hs]
      rfl
    | false =>
      obtain ⟨r₁, f?, s₁, hrun, -, -, -, hsucc, -, -⟩ := runStep_on st r s
      rw [execute_of_step hs hrun, execute_of_step hs hrun]
      cases f? with
      | none => exact ih r₁ s₁ (hsucc.trans hr)
      | some f => rfl

theorem Leads.append (h₁ : Leads cancelled steps P Q W) (h₂ : Leads cancelled more Q R W) :
    Leads cancelled (steps ++ more) P R W := by
  intro r s hr hP
  obtain ⟨r₁, s₁, hrun, hend⟩ := h₁ r s hr hP
  rw [execute_append r s hr, hrun]
  rcases hend with ⟨hr₁, hQ⟩ | ⟨hr₁, hW⟩
  · simp only [hr₁, if_true]
    exact h₂ r₁ s₁ hr₁ hQ
  · exact ⟨r₁, s₁, by simp [hr₁], .inr ⟨hr₁, hW⟩⟩

theorem Leads.imp {P' Q' : Core μ → Prop} (h : Leads cancelled steps P Q W)
    (hP : ∀ c, P' c → P c) (hQ : ∀ c, Q c → Q' c) : Leads cancelled steps P' Q' W := by
  intro r s hr hs
  obtain ⟨r', s', hrun, hend⟩ := h r s hr (hP _ hs)
  exact ⟨r', s', hrun, hend.imp_left fun h => ⟨h.1, hQ _ h.2⟩⟩

/-- Two triples of the same run. -/
theorem Leads.and {P' Q' W' : Core μ → Prop} (h : Leads cancelled steps P Q W)
    (h' : Leads cancelled steps P' Q' W') :
    Leads cancelled steps (fun c => P c ∧ P' c) (fun c => Q c ∧ Q' c) fun c => W c ∧ W' c := by
  intro r s hr hs
  obtain ⟨r₁, s₁, hrun, hend⟩ := h r s hr hs.1
  obtain ⟨r₂, s₂, hrun', hend'⟩ := h' r s hr hs.2
  cases hrun.symm.trans hrun'
  refine ⟨r₁, s₁, hrun, ?_⟩
  rcases hend with ⟨hr₁, hQ⟩ | ⟨hr₁, hW⟩ <;> rcases hend' with ⟨hr₂, hQ'⟩ | ⟨hr₂, hW'⟩
  · exact .inl ⟨hr₁, hQ, hQ'⟩
  · exact absurd (hr₁.symm.trans hr₂) (by decide)
  · exact absurd (hr₁.symm.trans hr₂) (by decide)
  · exact .inr ⟨hr₁, hW, hW'⟩

/-- Steps that never fail leave the list of failed operations as it was. -/
theorem execute_failed {r r' : Result} {s s' : Session μ}
    (h : ∀ st ∈ steps, ∀ s, P s.core →
      (∃ note?, (st.run.on s).1 = .ok note?) ∧ P (st.run.on s).2.core)
    (hs : P s.core) (hrun : (execute cancelled steps r).on s = (.ok r', s')) :
    r'.failed = r.failed := by
  induction steps generalizing r s with
  | nil => cases hrun; rfl
  | cons st steps ih =>
    obtain ⟨⟨note?, hnote⟩, hP⟩ := h st List.mem_cons_self s hs
    obtain ⟨r₁, f?, s₁, hstep, hcore, -, -, -, -, hfailed⟩ := runStep_on st r s
    cases hc : cancelled s with
    | true =>
      rw [execute_of_cancelled hc] at hrun
      cases hrun
      rfl
    | false =>
      rw [execute_of_step hc hstep] at hrun
      cases f? with
      | none =>
        exact (ih (fun st' hst' => h st' (List.mem_cons_of_mem _ hst')) (hcore ▸ hP) hrun).trans
          (hfailed note? hnote)
      | some f =>
        cases hrun
        exact hfailed note? hnote

/-- A list of steps that all keep `P`. -/
theorem leads_keeping (hc : ∀ s, cancelled s = true → P s.core → W s.core)
    (h : ∀ st ∈ steps, st.Takes P P W) : Leads cancelled steps P P W := by
  induction steps with
  | nil => exact leads_nil
  | cons st steps ih =>
    exact leads_cons hc (h st List.mem_cons_self) (ih fun x hx => h x (List.mem_cons_of_mem _ hx))

section

variable {ω : Type} {tweakId : String} {side : Side} {ops : List ω} {step : Slot → ω → Step μ}
  {I : Nat → Core μ → Prop}

/-- A step for operations is the step of one of them. -/
theorem mem_stepsFor {st : Step μ} (h : st ∈ stepsFor tweakId side ops step) :
    ∃ slot, ∃ op ∈ ops, st = step slot op := by
  obtain ⟨⟨op, i⟩, hmem, rfl⟩ := List.mem_map.mp h
  exact ⟨_, op, List.fst_mem_of_mem_zipIdx hmem, rfl⟩

theorem stepsFor_append (rest : List ω) :
    stepsFor tweakId side (ops ++ rest) step = stepsFor tweakId side ops step ++
      (rest.zipIdx ops.length).map fun (op, i) => step ⟨tweakId, side, i⟩ op := by
  simp [stepsFor, List.zipIdx_append]

/-- Operations in order, along an invariant that knows how many have run. -/
theorem leads_upward (hc : ∀ i s, cancelled s = true → I i s.core → W s.core)
    (h : ∀ i op, ops[i]? = some op → (step ⟨tweakId, side, i⟩ op).Takes (I i) (I (i + 1)) W) :
    Leads cancelled (stepsFor tweakId side ops step) (I 0) (I ops.length) W := by
  induction ops using List.reverseRecOn with
  | nil => exact leads_nil
  | append_singleton ops op ih =>
    rw [stepsFor_append]
    refine (ih fun i o hi => h i o ?_).append ?_
    · rw [List.getElem?_append_left (List.getElem?_eq_some_iff.mp hi).1]
      exact hi
    · have hop := h ops.length op (by simp)
      rw [List.length_append]
      exact leads_cons (hc _) hop leads_nil

/-- Operations in the opposite order, along an invariant that knows how many are left. -/
theorem leads_downward (hc : ∀ i s, cancelled s = true → I i s.core → W s.core)
    (h : ∀ i op, ops[i]? = some op → (step ⟨tweakId, side, i⟩ op).Takes (I (i + 1)) (I i) W) :
    Leads cancelled (stepsFor tweakId side ops step).reverse (I ops.length) (I 0) W := by
  induction ops using List.reverseRecOn with
  | nil => exact leads_nil
  | append_singleton ops op ih =>
    rw [stepsFor_append, List.reverse_append, List.length_append]
    have hop := h ops.length op (by simp)
    refine leads_cons (hc _) hop (ih fun i o hi => h i o ?_)
    rw [List.getElem?_append_left (List.getElem?_eq_some_iff.mp hi).1]
    exact hi

end

section

variable {e : Engine μ} {tweakId : String} {side : Side} {ops : OperationSet}
  {P : Work μ (Option String) → Prop}

/-- What running each operation does, every step of a set of operations does. -/
theorem forall_runSteps (h : e.runSteps tweakId side ops = .ok steps)
    (hregistry : ∀ slot, ∀ op ∈ ops.registry, P (e.runRegistry slot op))
    (hservices : ∀ slot, ∀ op ∈ ops.services, P (e.runService slot op))
    (hscripts : ∀ op ∈ ops.scripts, P (e.runScript op))
    (hfiles : ∀ slot, ∀ op ∈ ops.files, P (e.runFile slot op)) : ∀ st ∈ steps, P st.run := by
  obtain ⟨scripts, hread, h⟩ := ok_of_bind h
  cases h
  intro st hst
  simp only [List.mem_append] at hst
  obtain ((hst | hst) | hst) | hst := hst
  · obtain ⟨slot, op, hop, rfl⟩ := mem_stepsFor hst
    exact hregistry slot op hop
  · obtain ⟨slot, op, hop, rfl⟩ := mem_stepsFor hst
    exact hservices slot op hop
  · obtain ⟨op, hop, hstep⟩ := mem_of_mapM hread st hst
    obtain ⟨label, -, hstep⟩ := ok_of_bind hstep
    cases hstep
    exact hscripts op hop
  · obtain ⟨slot, op, hop, rfl⟩ := mem_stepsFor hst
    exact hfiles slot op hop

/-- What restoring each operation does, every restoring step does. -/
theorem forall_restoreSteps (h : e.restoreSteps tweakId ops = .ok steps)
    (hregistry : ∀ slot, ∀ op ∈ ops.registry, P (e.restoreRegistry slot op))
    (hservices : ∀ slot, ∀ op ∈ ops.services, P (e.restoreService slot op))
    (hscripts : ∀ op ∈ ops.scripts, P (e.revertScript op))
    (hfiles : ∀ slot, ∀ op ∈ ops.files, P (e.restoreFile slot op)) : ∀ st ∈ steps, P st.run := by
  obtain ⟨scripts, hread, h⟩ := ok_of_bind h
  cases h
  intro st hst
  simp only [List.mem_append, List.mem_reverse] at hst
  obtain ((hst | hst) | hst) | hst := hst
  · obtain ⟨slot, op, hop, rfl⟩ := mem_stepsFor hst
    exact hfiles slot op hop
  · obtain ⟨op, hop, hstep⟩ := mem_of_mapM hread st hst
    obtain ⟨label, -, hstep⟩ := ok_of_bind hstep
    cases hstep
    exact hscripts op (List.mem_reverse.mp hop)
  · obtain ⟨slot, op, hop, rfl⟩ := mem_stepsFor hst
    exact hservices slot op hop
  · obtain ⟨slot, op, hop, rfl⟩ := mem_stepsFor hst
    exact hregistry slot op hop

end
end Engine
end TweakEngine
