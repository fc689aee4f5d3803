/-
# Tweaks of a single step

Applying a tweak whose operations make one step and reverting it again is running that step and
then the step that restores it, where no store keeps snapshots and nobody cancels
(`Engine.there_and_back`).
-/

import TweakEngine.Proofs.OperationAccounts
import TweakEngine.System.Windows

namespace TweakEngine

namespace Session

variable {μ α : Type} {s : Session μ}

/-- What an action does on the host it does in the session. -/
theorem onHost_of {a : Call μ α} {r : Except Failure α} {h : Host μ} (ha : a.on s.host = (r, h)) :
    (onHost a).on s = (r, { s with host := h }) := by
  have hlift : (onHost a).on s = ((a.on s.host).1, { s with host := (a.on s.host).2 }) := rfl
  rw [hlift, ha]

/-- Capturing where nothing is captured. -/
theorem capture_first (part : Part (Session μ) (Captures α)) {slot : Slot}
    (hfree : Assoc.get? slot (part.get s) = none) (c : α) :
    (capture part slot c).on s = (.ok true, part.set (Assoc.put slot c (part.get s)) s) := by
  rw [capture, Part.on_lift, Act.on_of, Captures.keep, hfree]

end Session

namespace Engine

open Session

variable {μ : Type} {e : Engine μ} {t : Tweak} {st st' : Step μ} {s : Session μ}

/-- A run of one step does what the step does. -/
theorem execute_single (st : Step μ) (r : Result) (s : Session μ) :
    ∃ r' s', (execute (fun _ => false) [st] r).on s = (.ok r', s') ∧
      s'.core = (st.run.on s).2.core := by
  obtain ⟨r₁, f?, s₁, hrun, hcore, -⟩ := runStep_on st r s
  rw [execute_of_step rfl hrun]
  cases f? with
  | none => exact ⟨r₁, s₁, rfl, hcore⟩
  | some f => exact ⟨_, _, rfl, hcore⟩

/-- A run of one step without a store, where the step leaves the store alone. -/
theorem execute_storeless (hst : e.Operates st.run) (r : Result) (hstore : s.core.store = none) :
    ∃ r' s', (execute (fun _ => false) [st] r).on s = (.ok r', s') ∧
      s'.core = (st.run.on s).2.core ∧ s'.core.store = none := by
  obtain ⟨r', s', hrun, hcore⟩ := execute_single st r s
  exact ⟨r', s', hrun, hcore,
    (congrArg Core.store hcore).trans ((hst.keeps_store s).trans hstore)⟩

theorem apply_single (hcheck : e.skipIfApplied = false ∨ e.detector = none)
    (hmay : e.mayRun t.operations = true)
    (hsteps : e.runSteps t.id .apply t.operations = .ok [st]) (hstore : s.core.store = none) :
    ∃ s₁, s₁.core = s.core ∧ ((e.apply (fun _ => false) t).on s).2.core = (st.run.on s₁).2.core ∧
      ((e.apply (fun _ => false) t).on s).2.core.store = none := by
  obtain ⟨s₁, hcore, hdoes⟩ := apply_does (fun _ => false) hcheck hmay hsteps s
  have hstore₁ : s₁.core.store = none := (congrArg Core.store hcore).trans hstore
  obtain ⟨r, s₂, hrun, hcore₂, hstore₂⟩ := execute_storeless
    (runSteps_operate hsteps st List.mem_cons_self) { success := true, tweakId := t.id } hstore₁
  have happly : (applyRun (fun _ => false) [st] t).on s₁ = (.ok r, s₂) := by
    rw [applyRun, Act.on_bind_of_ok (loadSnapshot_on_none t hstore₁), Act.on_bind_of_ok hrun,
      saveSnapshot, Act.on_bind_of_ok (withStore_on_none _ _ _ _ hstore₂)]
    rfl
  rw [happly] at hdoes
  obtain ⟨r', s', hcall, hcore', -⟩ := hdoes
  rw [hcall]
  exact ⟨s₁, hcore, hcore'.trans hcore₂, (congrArg Core.store hcore').trans hstore₂⟩

theorem revert_single (hmay : e.mayRun t.revertOperations = true) (hr : t.isReversible = true)
    (hu : t.undo? = none) (hsteps : e.restoreSteps t.id t.operations = .ok [st])
    (hstore : s.core.store = none) :
    ∃ r s' s₁, (e.revert (fun _ => false) t).on s = (.ok r, s') ∧ s₁.core = s.core ∧
      s'.core = (st.run.on s₁).2.core := by
  obtain ⟨s₀, hcore₀, hrevert⟩ := revert_eq (fun _ => false) hmay hr hu hsteps s
  obtain ⟨s₁, hcore, hdoes⟩ := callDoes_of_finish t "REVERT" s.host.clock hcore₀ hrevert
  have hstore₁ : s₁.core.store = none := (congrArg Core.store hcore).trans hstore
  obtain ⟨r, s₂, hrun, hcore₂, hstore₂⟩ := execute_storeless
    (restoreSteps_operate hsteps st List.mem_cons_self) { success := true, tweakId := t.id } hstore₁
  have hback : (revertRun (fun _ => false) [st] t).on s₁ = (.ok r, s₂) := by
    rw [revertRun, Act.on_bind_of_ok (loadSnapshot_on_none t hstore₁), Act.on_bind_of_ok hrun]
    dsimp only
    split
    · rw [deleteSnapshot, Act.on_bind_of_ok (withStore_on_none _ _ _ _ hstore₂)]
      rfl
    · rfl
  rw [hback] at hdoes
  obtain ⟨r', s', hcall, hcore', -⟩ := hdoes
  exact ⟨r', s', s₁, hcall, hcore, hcore'.trans hcore₂⟩

/-- **Applying and reverting a tweak of one step** is running the step and then the step that
restores it. -/
theorem there_and_back (hcheck : e.skipIfApplied = false ∨ e.detector = none)
    (hmay : e.mayRun t.operations = true) (hr : t.isReversible = true) (hu : t.undo? = none)
    (hsteps : e.runSteps t.id .apply t.operations = .ok [st])
    (hback : e.restoreSteps t.id t.operations = .ok [st']) (hstore : s.store = none) :
    ∃ r s' s₁ s₂, (e.revert (fun _ => false) t).on ((e.apply (fun _ => false) t).on s).2 =
        (.ok r, s') ∧ s₁.core = s.core ∧ s₂.core = (st.run.on s₁).2.core ∧
      s'.core = (st'.run.on s₂).2.core := by
  have hmay' : e.mayRun t.revertOperations = true := by rwa [Tweak.revertOperations, hu]
  obtain ⟨s₁, hcore₁, happly, hstore₂⟩ := apply_single hcheck hmay hsteps hstore
  obtain ⟨r, s', s₂, hrevert, hcore₂, hcore'⟩ := revert_single hmay' hr hu hback hstore₂
  exact ⟨r, s', s₁, s₂, hrevert, hcore₁, hcore₂.trans happly, hcore'⟩

/-- A change that an engine makes of a Windows. -/
theorem write_of {e : Engine Windows} {w : WindowsAccess} {s : Session Windows} {c : Write}
    {r : Except Failure c.Reply} {h : Host Windows} (he : e.mutator = w.mutator)
    (hc : (w.perform c).on s.host = (r, h)) : (e.write c).on s = (r, { s with host := h }) := by
  rw [write, he]
  exact onHost_of hc

end Engine

/-- An engine on a Windows, without a detector and a store. -/
def plainEngine : Engine Windows := { mutator := WindowsAccess.mutator {} }

end TweakEngine
