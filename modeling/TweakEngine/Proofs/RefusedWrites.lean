/-
# Writes that are refused

`a.Follows b` says that the action `a`, whenever it succeeds, does what `b` does.  An
engine of which some writes are refused follows the engine that refuses none, operation by
operation: no operation goes on after a refused write.  A run of steps goes on after an
operation that failed and records it, so a run that succeeds and records no failure is the
run of the engine that refuses none (`execute_follows`), and so is the revert
(`revertRun_follows`).
-/

import TweakEngine.Proofs.Restoration
import Mathlib.Data.List.Forall2

namespace TweakEngine

namespace Act

variable {σ α β : Type}

/-- Whenever the first action succeeds, the second one does the same. -/
def Follows (a b : Act σ α) : Prop := ∀ s x s', a.on s = (.ok x, s') → b.on s = (.ok x, s')

namespace Follows

theorem refl (a : Act σ α) : a.Follows a := fun _ _ _ h => h

theorem bind {a b : Act σ α} {k k' : α → Act σ β} (h : a.Follows b)
    (hk : ∀ x, (k x).Follows (k' x)) : (a >>= k).Follows (b >>= k') := by
  intro s y s' hy
  obtain ⟨x, t, hx, hy⟩ := ok_of_on_bind hy
  rw [on_bind_of_ok (h s x t hx)]
  exact hk x t y s' hy

/-- After the same action. -/
theorem after (a : Act σ α) {k k' : α → Act σ β} (hk : ∀ x, (k x).Follows (k' x)) :
    (a >>= k).Follows (a >>= k') := (refl a).bind hk

theorem discard {a b : Act σ α} (h : a.Follows b) : (discard a).Follows (discard b) := by
  intro s y s' hy
  rw [on_discard] at hy ⊢
  rcases ha : a.on s with ⟨f | x, t⟩ <;> rw [ha] at hy
  · cases hy
  · rw [h s x t ha]
    exact hy

end Follows
end Act

/-- Steps of one label of which the first follows the second. -/
structure Step.Follows {μ : Type} (st st' : Step μ) : Prop where
  label : st.label = st'.label
  run : st.run.Follows st'.run

namespace Engine

open Session

/-! ## Single operations -/

section

variable {e : Engine Machine} {refuses : Host Machine → Write → Option Failure}

theorem write_follows (w : Write) : ((e.refusing refuses).write w).Follows (e.write w) := by
  intro s x s' h
  rw [refusing_write_on] at h
  cases hr : refuses s.host w with
  | some f =>
    rw [hr] at h
    cases h
  | none =>
    rw [hr] at h
    exact h

theorem restoreRegistry_follows (slot : Slot) (op : RegistryOperation) :
    ((e.refusing refuses).restoreRegistry slot op).Follows (e.restoreRegistry slot op) := by
  refine .after _ fun c? => ?_
  cases c? with
  | none => exact .refl _
  | some c =>
    refine .after (onHost (e.resolve op.hive op.keyPath)) fun (hive, keyPath) => ?_
    dsimp only
    cases restoringWrite op c hive keyPath with
    | none => exact .refl _
    | some w => exact (write_follows w).discard.bind fun _ => .refl _

/-- Bringing a service to the state of its note. -/
theorem bringState_follows (slot : Slot) (op : ServiceOperation) (c : ServiceCapture) : Act.Follows (do
      let current ← onHost ((e.refusing refuses).mutator.queryService op.service)
      match stateWrite op.service c.state current.state with
      | some w => discard ((e.refusing refuses).write w)
      | none => pure ()
      release servicesPart slot
      return (none : Option String)) (do
      let current ← onHost (e.mutator.queryService op.service)
      match stateWrite op.service c.state current.state with
      | some w => discard (e.write w)
      | none => pure ()
      release servicesPart slot
      return none) := by
  refine .after (onHost (e.mutator.queryService op.service)) fun current => ?_
  cases stateWrite op.service c.state current.state with
  | none => exact .refl _
  | some w => exact (write_follows w).discard.bind fun _ => .refl _

theorem restoreService_follows (slot : Slot) (op : ServiceOperation) :
    ((e.refusing refuses).restoreService slot op).Follows (e.restoreService slot op) := by
  refine .after _ fun c? => ?_
  cases c? with
  | none => exact .refl _
  | some c =>
    dsimp only
    split
    · exact (write_follows _).bind fun _ => bringState_follows slot op c
    · exact bringState_follows slot op c

theorem runText_follows (op : ScriptOperation) (script : Datum) :
    ((e.refusing refuses).runText op script).Follows (e.runText op script) := by
  refine .after _ fun text => ?_
  dsimp only
  split
  · exact .refl _
  split
  · exact .after _ fun _ => (write_follows _).bind fun _ => .refl _
  · exact (write_follows _).bind fun _ => .refl _

theorem revertScript_follows (op : ScriptOperation) :
    ((e.refusing refuses).revertScript op).Follows (e.revertScript op) := by
  unfold revertScript
  split
  · exact .refl _
  · exact runText_follows op op.revert

theorem undelete_follows (op : FileOperation) (c : FileCapture) :
    ((e.refusing refuses).undelete op c).Follows (e.undelete op c) := by
  unfold undelete
  dsimp only
  split
  on_goal 1 => refine .after (onHost (e.mutator.pathExists op.backup)) fun there => ?_
  on_goal 2 => refine .after (pure false) fun there => ?_
  all_goals
    split
    · exact write_follows _
    split
    · split
      · exact .after _ fun _ => write_follows _
      · exact write_follows _
    · exact .refl _

/-- Taking away what is at a path, if anything is. -/
theorem deleteIfThere_follows (path : Datum) (existed : Bool) : Act.Follows (do
      if !existed then
        if ← onHost ((e.refusing refuses).mutator.pathExists path) then
          (e.refusing refuses).write (.deletePath path)) (do
      if !existed then
        if ← onHost (e.mutator.pathExists path) then e.write (.deletePath path)) := by
  cases existed with
  | true => exact .refl _
  | false =>
    refine .after (onHost (e.mutator.pathExists path)) fun there => ?_
    cases there with
    | true => exact write_follows _
    | false => exact .refl _

theorem undoFile_follows (op : FileOperation) (c : FileCapture) :
    ((e.refusing refuses).undoFile op c).Follows (e.undoFile op c) := by
  unfold undoFile
  cases op.action with
  | delete => exact undelete_follows op c
  | setAttributes | takeOwnership => exact .refl _
  | createDirectory => exact deleteIfThere_follows op.path c.existed
  | copy => exact deleteIfThere_follows op.target c.existed
  | createFile =>
    dsimp only
    split
    · exact write_follows _
    split
    · exact write_follows _
    · exact .refl _
  | rename =>
    refine .after (onHost (e.mutator.pathExists op.target)) fun there => ?_
    cases there with
    | true => exact write_follows _
    | false => exact .refl _

/-- Undoing what is captured of a file operation. -/
theorem undoCaptured_follows (slot : Slot) (op : FileOperation) : Act.Follows (do
      match ← captured? filesPart slot with
      | none => return some nothingCaptured
      | some c =>
        (e.refusing refuses).undoFile op c
        release filesPart slot
        return none) (do
      match ← captured? filesPart slot with
      | none => return some nothingCaptured
      | some c =>
        e.undoFile op c
        release filesPart slot
        return none) := by
  refine .after _ fun c? => ?_
  cases c? with
  | none => exact .refl _
  | some c => exact (undoFile_follows op c).bind fun _ => .refl _

theorem restoreFile_follows (slot : Slot) (op : FileOperation) :
    ((e.refusing refuses).restoreFile slot op).Follows (e.restoreFile slot op) := by
  unfold restoreFile
  cases op.action with
  | setAttributes | takeOwnership => exact .refl _
  | _ => exact undoCaptured_follows slot op

end

/-! ## Runs -/

section

variable {μ : Type} {cancelled : Session μ → Bool} {steps steps' : List (Step μ)}
  {r r' : Result} {s s' : Session μ}

/-- A step records at most a failure of its own. -/
theorem runStep_failed {st : Step μ} {f? : Option Failure}
    (h : (runStep st r).on s = (.ok (r', f?), s')) : r.failed <+: r'.failed ∧
      (f? = none → r'.failed = r.failed → ∃ note?, st.run.on s = (.ok note?, (st.run.on s).2)) := by
  unfold runStep at h
  rw [Act.on_bind, Act.on_attempt] at h
  rcases hst : st.run.on s with ⟨f | note?, s₁⟩ <;> rw [hst] at h
  · dsimp only at h
    cases hf : f.isOperational with
    | true =>
      rw [hf] at h
      cases h
      exact ⟨List.prefix_append _ _, fun _ hsame => absurd hsame (by simp)⟩
    | false =>
      rw [hf] at h
      cases h
      exact ⟨List.prefix_refl _, nofun⟩
  · refine ⟨?_, fun _ _ => ⟨note?, rfl⟩⟩
    cases note? <;> cases h <;> exact List.prefix_refl _

/-- A run adds to the record of failures. -/
theorem execute_failed_grows (h : (execute cancelled steps r).on s = (.ok r', s')) :
    r.failed <+: r'.failed := by
  induction steps generalizing r s with
  | nil =>
    cases h
    exact List.prefix_refl _
  | cons st steps ih =>
    cases hc : cancelled s with
    | true =>
      rw [execute_of_cancelled hc] at h
      cases h
      exact List.prefix_refl _
    | false =>
      obtain ⟨r₁, f?, s₁, hrun, -⟩ := runStep_on st r s
      rw [execute_of_step hc hrun] at h
      have hr₁ := (runStep_failed hrun).1
      cases f? with
      | none => exact hr₁.trans (ih h)
      | some f =>
        cases h
        exact hr₁

/-- A step that succeeds is recorded like the step that it follows. -/
theorem runStep_follows {st st' : Step μ} {note? : Option String} (hst : st.Follows st')
    (h : st.run.on s = (.ok note?, s')) : (runStep st r).on s = (runStep st' r).on s := by
  unfold runStep
  rw [Act.on_bind, Act.on_bind, Act.on_attempt, Act.on_attempt, h, hst.run s note? s' h, hst.label]

/-- **A run without failures** of steps that follow others is the run of the others. -/
theorem execute_follows (h : List.Forall₂ Step.Follows steps steps')
    (hrun : (execute cancelled steps r).on s = (.ok r', s')) (hsuccess : r'.success = true)
    (hfailed : r'.failed = r.failed) : (execute cancelled steps' r).on s = (.ok r', s') := by
  induction h generalizing r s with
  | nil => exact hrun
  | @cons st st' steps steps' hst _ ih =>
    cases hc : cancelled s with
    | true =>
      rw [execute_of_cancelled hc] at hrun
      cases hrun
      cases hsuccess
    | false =>
      obtain ⟨r₁, f?, s₁, hstep, -⟩ := runStep_on st r s
      rw [execute_of_step hc hstep] at hrun
      cases f? with
      | some f =>
        cases hrun
        cases hsuccess
      | none =>
        -- no failure is recorded later, so none was recorded here
        obtain ⟨hgrown, hok⟩ := runStep_failed hstep
        have hr₁ : r₁.failed = r.failed := hgrown.eq_of_length_le
          (hfailed ▸ (execute_failed_grows hrun).length_le) |>.symm
        obtain ⟨note?, hnote⟩ := hok rfl hr₁
        rw [runStep_follows hst hnote] at hstep
        rw [execute_of_step hc hstep]
        exact ih hrun (hfailed.trans hr₁.symm)

end

/-! ## Reverting -/

/-- Results for all items give related results for all items. -/
theorem mapM_related {α β : Type} {f g : α → Except Failure β} {R : β → β → Prop}
    (h : ∀ x y, f x = .ok y → ∃ y', g x = .ok y' ∧ R y y') :
    ∀ {xs : List α} {ys : List β}, xs.mapM f = .ok ys →
      ∃ ys', xs.mapM g = .ok ys' ∧ List.Forall₂ R ys ys'
  | [], ys, hys => by
    cases hys
    exact ⟨[], rfl, .nil⟩
  | x :: xs, ys, hys => by
    rw [List.mapM_cons] at hys ⊢
    obtain ⟨y, hy, hys⟩ := ok_of_bind hys
    obtain ⟨rest, hrest, hys⟩ := ok_of_bind hys
    cases hys
    obtain ⟨y', hy', hR⟩ := h x y hy
    obtain ⟨rest', hrest', hall⟩ := mapM_related h hrest
    exact ⟨y' :: rest', by rw [hy', hrest']; rfl, .cons hR hall⟩

section

variable {e : Engine Machine} {refuses : Host Machine → Write → Option Failure}
  {cancelled : Session Machine → Bool} {steps steps' : List (Step Machine)}

/-- Steps for operations that follow one another. -/
theorem stepsFor_follow {ω : Type} {tweakId : String} {side : Side} {ops : List ω}
    {step step' : Slot → ω → Step Machine}
    (h : ∀ slot op, (step slot op).Follows (step' slot op)) :
    List.Forall₂ Step.Follows (stepsFor tweakId side ops step).reverse
      (stepsFor tweakId side ops step').reverse := by
  unfold stepsFor
  rw [List.forall₂_reverse_iff, List.forall₂_map_left_iff, List.forall₂_map_right_iff,
    List.forall₂_same]
  exact fun (op, i) _ => h _ op

/-- The restoring steps while writes are refused follow those of the engine that refuses
none. -/
theorem restoreSteps_follow {id : String} {ops : OperationSet}
    (h : (e.refusing refuses).restoreSteps id ops = .ok steps) :
    ∃ steps', e.restoreSteps id ops = .ok steps' ∧ List.Forall₂ Step.Follows steps steps' := by
  obtain ⟨scripts, hscripts, h⟩ := ok_of_bind h
  cases h
  obtain ⟨scripts', hscripts', hfollow⟩ := mapM_related (R := Step.Follows)
    (g := fun op => do return (⟨undoing "Revert" (← op.describe), e.revertScript op⟩ : Step Machine))
    (fun op st hst => by
      obtain ⟨d, hd, hst⟩ := ok_of_bind hst
      cases hst
      exact ⟨⟨undoing "Revert" d, e.revertScript op⟩, by rw [hd]; rfl, rfl,
        revertScript_follows op⟩) hscripts
  unfold restoreSteps
  rw [hscripts']
  refine ⟨_, rfl, ?_⟩
  refine List.rel_append (List.rel_append (List.rel_append ?_ hfollow) ?_) ?_
  · exact stepsFor_follow fun slot op => ⟨rfl, restoreFile_follows slot op⟩
  · exact stepsFor_follow fun slot op => ⟨rfl, restoreService_follows slot op⟩
  · exact stepsFor_follow fun slot op => ⟨rfl, restoreRegistry_follows slot op⟩

/-- **A revert without failures** while writes are refused is the revert of the engine that
refuses none. -/
theorem revertRun_follows {t : Tweak} {r : Result} {s s₁ s₂ : Session Machine}
    (hsteps : (e.refusing refuses).restoreSteps t.id t.operations = .ok steps)
    (hsteps' : e.restoreSteps t.id t.operations = .ok steps')
    (hload : (loadSnapshot t).on s = (.ok (), s₁))
    (hrun : (execute cancelled steps { success := true, tweakId := t.id }).on s₁ = (.ok r, s₂))
    (hclean : r.clean = true) :
    (revertRun cancelled steps t).on s = (revertRun cancelled steps' t).on s := by
  obtain ⟨steps'', hsteps'', hfollow⟩ := restoreSteps_follow hsteps
  cases hsteps'.symm.trans hsteps''
  rw [Result.clean, Bool.and_eq_true, List.isEmpty_iff] at hclean
  have hrun' := execute_follows hfollow hrun hclean.1 hclean.2
  rw [revertRun, revertRun, Act.on_bind_of_ok hload, Act.on_bind_of_ok hload,
    Act.on_bind_of_ok hrun, Act.on_bind_of_ok hrun']

end

end Engine
end TweakEngine
