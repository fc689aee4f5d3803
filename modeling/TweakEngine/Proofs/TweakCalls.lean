/-
# Calls of a tweak

What applying and reverting do around the run of steps.  On an engine with administrator
rights and without a detector, applying reads the snapshot, runs the steps and writes
the snapshot; reverting a reversible tweak without undo operations reads the snapshot,
runs the restoring steps and removes the snapshot when all went well.
-/

import TweakEngine.Execution.Apply
import TweakEngine.Proofs.StepRuns

namespace TweakEngine

open Session

namespace Engine

variable {μ : Type} {e : Engine μ} {t : Tweak} {steps : List (Step μ)}
  {s : Session μ}

/-- What applying does: reading the snapshot, the run, and writing the snapshot. -/
def applyRun (cancelled : Session μ → Bool) (steps : List (Step μ)) (t : Tweak) : Work μ Result := do
  loadSnapshot t
  let r ← execute cancelled steps { success := true, tweakId := t.id }
  saveSnapshot t
  return r

/-- What reverting does: reading the snapshot, the run, and removing the snapshot. -/
def revertRun (cancelled : Session μ → Bool) (steps : List (Step μ)) (t : Tweak) :
    Work μ Result := do
  loadSnapshot t
  let r ← execute cancelled steps { success := true, tweakId := t.id }
  if r.clean then deleteSnapshot t
  return r

/-- A call does what its run does, with the same success. -/
def CallDoes (call run : Work μ Result) (s : Session μ) : Prop :=
  ∃ s₁, s₁.core = s.core ∧ match run.on s₁ with
    | (.ok r, s₂) => ∃ r' s', call.on s = (.ok r', s') ∧ s'.core = s₂.core ∧
        r'.success = r.success ∧ r'.failed = r.failed
    | (.error f, s₂) => call.on s = (.error f, s₂)

/-- Finishing a call changes nothing that counts. -/
theorem callDoes_of_finish {call run : Work μ Result} {s₁ : Session μ} (t : Tweak)
    (action : String) (start : Moment) (hcore : s₁.core = s.core)
    (h : call.on s = (do
      let r ← run
      let r := { r with requiresRestart := r.success && t.requiresRestart }
      finish action t start r.summary r).on s₁) : CallDoes call run s := by
  refine ⟨s₁, hcore, ?_⟩
  rw [h, Act.on_bind]
  rcases run.on s₁ with ⟨f | r, s₂⟩
  · rfl
  · exact ⟨_, _, rfl, rfl, rfl, rfl⟩

theorem mayRun_of_elevated (hel : e.elevated = true) (ops : OperationSet) :
    e.mayRun ops = true := by simp [mayRun, hel]

/-- Without the check nothing counts as applied already. -/
theorem alreadyApplied_off (hcheck : e.skipIfApplied = false ∨ e.detector = none) (t : Tweak) :
    e.alreadyApplied t = return false := by
  unfold alreadyApplied
  rcases hcheck with h | h
  · rw [h]
  · rw [h]
    cases e.skipIfApplied <;> rfl

/-- A call for a tweak that is not found applied does what its run does, if the operations may
run. -/
theorem apply_does_of (cancelled : Session μ → Bool) {s₀ : Session μ}
    (hdet : (onHost (e.alreadyApplied t)).on s = (.ok false, s₀)) (hcore₀ : s₀.core = s.core)
    (hrun : e.mayRun t.operations = true)
    (hsteps : e.runSteps t.id .apply t.operations = .ok steps) :
    CallDoes (e.apply cancelled t) (applyRun cancelled steps t) s := by
  have hnow : (onHost Host.now : Work μ Moment).on s = (.ok s.host.clock, s) := rfl
  obtain ⟨s₁, hs₁, hcore⟩ := say_on (μ := μ) .info speaker
    ("Applying tweak " ++ t.id ++ " (" ++ toString t.operations.count ++ " operations)") s₀
  refine callDoes_of_finish t "APPLY" s.host.clock (hcore.trans hcore₀) ?_
  simp only [apply, applyRun, bind_assoc, pure_bind]
  rw [Act.on_bind, hnow]
  dsimp only
  rw [Act.on_bind, hdet]
  simp only [Bool.false_eq_true, if_false, hrun, Bool.not_true]
  rw [Act.on_bind, hs₁]
  dsimp only
  rw [Act.on_bind, Act.on_bind]
  rcases (loadSnapshot t).on s₁ with ⟨f | _, s₂⟩
  · rfl
  · dsimp only
    rw [Act.on_bind, Act.on_result, hsteps]

/-- **Applying** does what its run does, when there is no check and the operations may run. -/
theorem apply_does (cancelled : Session μ → Bool)
    (hcheck : e.skipIfApplied = false ∨ e.detector = none) (hrun : e.mayRun t.operations = true)
    (hsteps : e.runSteps t.id .apply t.operations = .ok steps) (s : Session μ) :
    CallDoes (e.apply cancelled t) (applyRun cancelled steps t) s :=
  apply_does_of cancelled (by rw [alreadyApplied_off hcheck]; rfl) rfl hrun hsteps

/-- Reverting a reversible tweak without undo operations whose restoring may run is its run
and finishing the call. -/
theorem revert_eq (cancelled : Session μ → Bool) (hrun : e.mayRun t.revertOperations = true)
    (hr : t.isReversible = true) (hu : t.undo? = none)
    (hsteps : e.restoreSteps t.id t.operations = .ok steps) (s : Session μ) :
    ∃ s₁, s₁.core = s.core ∧ (e.revert cancelled t).on s = (do
      let r ← revertRun cancelled steps t
      let r := { r with requiresRestart := r.success && t.requiresRestart }
      finish "REVERT" t s.host.clock r.summary r).on s₁ := by
  have hnow : (onHost Host.now : Work μ Moment).on s = (.ok s.host.clock, s) := rfl
  obtain ⟨s₁, hs₁, hcore⟩ := say_on (μ := μ) .info speaker
    ("Reverting tweak " ++ t.id ++ " by restoring captured state") s
  refine ⟨s₁, hcore, ?_⟩
  simp only [revert, revertRun, revertSteps, hu, bind_assoc]
  rw [Act.on_bind, hnow]
  dsimp only
  simp only [hr, hrun, Bool.not_true, Bool.false_eq_true, if_false]
  rw [Act.on_bind, hs₁]
  dsimp only
  rw [Act.on_bind, Act.on_bind]
  rcases (loadSnapshot t).on s₁ with ⟨f | _, s₂⟩
  · rfl
  · dsimp only
    rw [Act.on_bind, Act.on_result, hsteps]
    dsimp only
    rw [Act.on_bind, Act.on_bind]
    rcases (execute cancelled steps { success := true, tweakId := t.id }).on s₂ with ⟨f | r, s₃⟩
    · rfl
    · dsimp only
      cases r.clean with
      | false => simp only [Bool.false_eq_true, if_false, pure_bind]
      | true => simp only [if_true, bind_assoc, pure_bind]

/-- **Reverting** a reversible tweak without undo operations does what its run does. -/
theorem revert_does (cancelled : Session μ → Bool) (hel : e.elevated = true)
    (hr : t.isReversible = true) (hu : t.undo? = none)
    (hsteps : e.restoreSteps t.id t.operations = .ok steps) (s : Session μ) :
    CallDoes (e.revert cancelled t) (revertRun cancelled steps t) s := by
  obtain ⟨s₁, hcore, hrevert⟩ := revert_eq cancelled (mayRun_of_elevated hel _) hr hu hsteps s
  exact callDoes_of_finish t "REVERT" s.host.clock hcore hrevert

/-! ## Snapshots -/

/-- Without a store there is no snapshot to read, to write or to remove. -/
theorem withStore_on_none (caught : Failure → Bool) (what id : String)
    (action : Snapshot.Store → Work μ Unit) (hs : s.core.store = none) :
    (withStore caught what id action).on s = (.ok (), s) := by
  have hstore : (openStore? : Work μ _).on s = (.ok none, s) := by rw [← hs]; rfl
  rw [withStore, Act.on_bind, hstore]
  rfl

theorem loadSnapshot_on_none (t : Tweak) (hs : s.core.store = none) :
    (loadSnapshot t).on s = (.ok (), s) := by
  have hcovers : (memoryPart.lift (Act.view fun m => m.covers t) : Work μ Bool).on s =
      (.ok (s.memory.covers t), s) := rfl
  rw [loadSnapshot, Act.on_bind, hcovers]
  dsimp only
  split
  · rfl
  · exact withStore_on_none _ _ _ _ hs

/-- The machine of a session. -/
def machineOf (s : Session μ) : μ := s.core.machine

/-- What snapshots and messages leave alone: the machine, and what is on record of writes and
plans. -/
def ledger (s : Session μ) : μ × List Write × List String :=
  (machineOf s, s.host.writes, s.host.plans)

theorem keeps_lift {T α : Type} {part : Part (Session μ) T} (a : Act T α)
    (hpart : ∀ x s, ledger (part.set x s) = ledger s) : (part.lift a).Keeps ledger :=
  fun _ => hpart _ _

theorem keeps_onDisk {α : Type} (a : Act Disk α) :
    (onHost (Host.onDisk a) : Work μ α).Keeps ledger := fun _ => rfl

theorem keeps_say (level : Level) (speaker text : String) :
    (say level speaker text : Work μ Unit).Keeps ledger := fun _ => rfl

/-- Working with the store keeps what the work and messages keep. -/
theorem keeps_withStore {γ : Type} {f : Session μ → γ}
    (hsay : ∀ level speaker text, (say level speaker text : Work μ Unit).Keeps f)
    (caught : Failure → Bool) (what id : String) {action : Snapshot.Store → Work μ Unit}
    (h : ∀ store, (action store).Keeps f) : (withStore caught what id action).Keeps f := by
  refine .bind (.view _) fun store? => ?_
  cases store? with
  | none => exact .pure _
  | some store =>
    refine .bind ((h store).rescue caught) fun r => ?_
    cases r with
    | ok => exact .pure _
    | error e => exact hsay _ _ _

/-- Reading a snapshot changes neither the machine nor the record. -/
theorem keeps_loadSnapshot (t : Tweak) : (loadSnapshot t : Work μ Unit).Keeps ledger := by
  refine .bind (keeps_lift _ fun _ _ => rfl) fun covered => ?_
  cases covered with
  | true => exact .pure _
  | false =>
    refine keeps_withStore keeps_say _ _ _ fun store => .discard ?_
    unfold Snapshot.load
    split
    · exact .bind (keeps_say _ _ _) fun _ => .pure _
    · refine .bind (.result _) fun file => .bind (keeps_onDisk _) fun there => ?_
      split
      · exact .bind (keeps_say _ _ _) fun _ => .pure _
      · exact .bind (keeps_onDisk _) fun _ => .bind (keeps_lift _ fun _ _ => rfl) fun _ =>
          .bind (keeps_say _ _ _) fun _ => .pure _

theorem dependsOn_onDisk {α : Type} (a : Act Disk α) :
    (onHost (Host.onDisk a) : Work μ α).DependsOn core := by
  intro s s' h
  obtain ⟨hmachine, hdisk, hmemory, hstore⟩ := Core.mk.inj h
  refine ⟨?_, ?_⟩
  · show (a.on s.host.disk).1 = (a.on s'.host.disk).1
    rw [hdisk]
  · show Core.mk s.host.machine (a.on s.host.disk).2 s.memory s.store =
      Core.mk s'.host.machine (a.on s'.host.disk).2 s'.memory s'.store
    rw [hmachine, hdisk, hmemory, hstore]

theorem dependsOn_memoryPart {α : Type} (a : Act Memory α) :
    (memoryPart.lift a : Work μ α).DependsOn core := by
  intro s s' h
  obtain ⟨hmachine, hdisk, hmemory, hstore⟩ := Core.mk.inj h
  refine ⟨?_, ?_⟩
  · show (a.on s.memory).1 = (a.on s'.memory).1
    rw [hmemory]
  · show Core.mk s.host.machine s.host.disk (a.on s.memory).2 s.store =
      Core.mk s'.host.machine s'.host.disk (a.on s'.memory).2 s'.store
    rw [hmachine, hdisk, hmemory, hstore]

theorem dependsOn_say (level : Level) (speaker text : String) :
    (say level speaker text : Work μ Unit).DependsOn core := fun _ _ h => ⟨rfl, h⟩

/-- What reading a snapshot gives is settled by the files, the captures and the store. -/
theorem dependsOn_loadSnapshot (t : Tweak) : (loadSnapshot t : Work μ Unit).DependsOn core := by
  refine .bind (dependsOn_memoryPart _) fun covered => ?_
  cases covered with
  | true => exact .pure _
  | false =>
    refine .bind (fun _ _ h => ⟨congrArg (Except.ok ∘ Core.store) h, h⟩) fun store? => ?_
    cases store? with
    | none => exact .pure _
    | some store =>
      refine .bind (.rescue (.discard ?_) _) fun r => ?_
      · unfold Snapshot.load
        split
        · exact .bind (dependsOn_say _ _ _) fun _ => .pure _
        · refine .bind (.result _) fun file => .bind (dependsOn_onDisk _) fun there => ?_
          split
          · exact .bind (dependsOn_say _ _ _) fun _ => .pure _
          · exact .bind (dependsOn_onDisk _) fun _ => .bind (dependsOn_memoryPart _) fun _ =>
              .bind (dependsOn_say _ _ _) fun _ => .pure _
      · cases r with
        | ok => exact .pure _
        | error f => exact dependsOn_say _ _ _

/-- Writing a snapshot changes neither the machine nor the record. -/
theorem keeps_saveSnapshot (t : Tweak) : (saveSnapshot t : Work μ Unit).Keeps ledger := by
  refine keeps_withStore keeps_say _ _ _ fun store => .discard ?_
  unfold Snapshot.save
  refine .bind (fun _ => rfl) fun now => .bind (.view _) fun captures => ?_
  dsimp only
  split
  · exact .bind (keeps_say _ _ _) fun _ => .pure _
  · exact .bind (keeps_onDisk _) fun _ => .bind (fun _ => rfl) fun _ =>
      .bind (keeps_onDisk _) fun _ => .bind (keeps_say _ _ _) fun _ => .pure _

/-! ## Applying and the machine -/

theorem keeps_finish (action : String) (t : Tweak) (start : Moment) (details : String) (r : Result) :
    (finish action t start details r : Work μ Result).Keeps ledger :=
  .bind (fun _ => rfl) fun _ => .bind (fun _ => rfl) fun _ => .pure _

/-- An apply that may not run leaves the machine as it is. -/
theorem apply_refused (cancelled : Session μ → Bool)
    (hcheck : e.skipIfApplied = false ∨ e.detector = none) (hmay : e.mayRun t.operations = false) :
    (e.apply cancelled t).Keeps machineOf := by
  have hledger : (e.apply cancelled t).Keeps ledger := by
    unfold apply refuse
    rw [alreadyApplied_off hcheck, hmay]
    refine .bind (fun _ => rfl) fun start => .bind (fun _ => rfl) fun applied => ?_
    cases applied with
    | true => exact keeps_finish _ _ _ _ _
    | false => exact .bind (keeps_say _ _ _) fun _ => keeps_finish _ _ _ _ _
  exact fun s => congrArg Prod.fst (hledger s)

/-- An apply whose scripts cannot be described changes neither the machine nor the record. -/
theorem keeps_undescribed (cancelled : Session μ → Bool)
    (hcheck : e.skipIfApplied = false ∨ e.detector = none) (hmay : e.mayRun t.operations = true)
    {f : Failure} (hsteps : e.runSteps t.id .apply t.operations = .error f) :
    (e.apply cancelled t).Keeps ledger := by
  unfold apply
  rw [alreadyApplied_off hcheck, hmay, hsteps]
  refine .bind (fun _ => rfl) fun start => .bind (fun _ => rfl) fun applied => ?_
  cases applied with
  | true => exact keeps_finish _ _ _ _ _
  | false => exact .bind (keeps_say _ _ _) fun _ => .bind (keeps_loadSnapshot t) fun _ s => rfl

theorem apply_undescribed (cancelled : Session μ → Bool)
    (hcheck : e.skipIfApplied = false ∨ e.detector = none) (hmay : e.mayRun t.operations = true)
    {f : Failure} (hsteps : e.runSteps t.id .apply t.operations = .error f) :
    (e.apply cancelled t).Keeps machineOf :=
  fun s => congrArg Prod.fst (keeps_undescribed cancelled hcheck hmay hsteps s)

/-- What comes before the steps when a tweak is applied. -/
def opening (t : Tweak) : Work μ Unit := do
  say .info speaker
    ("Applying tweak " ++ t.id ++ " (" ++ toString t.operations.count ++ " operations)")
  loadSnapshot t

theorem keeps_opening (t : Tweak) : (opening t : Work μ Unit).Keeps ledger :=
  .bind (keeps_say _ _ _) fun _ => keeps_loadSnapshot t

/-- What the machine and the record come to is what the steps make of them, unless the
snapshot cannot be read. -/
theorem apply_ledger (cancelled : Session μ → Bool)
    (hcheck : e.skipIfApplied = false ∨ e.detector = none) (hmay : e.mayRun t.operations = true)
    (hsteps : e.runSteps t.id .apply t.operations = .ok steps) (s : Session μ) :
    match (opening t).on s with
    | (.error _, s₁) => ledger ((e.apply cancelled t).on s).2 = ledger s₁
    | (.ok _, s₁) => ledger ((e.apply cancelled t).on s).2 =
        ledger ((execute cancelled steps { success := true, tweakId := t.id }).on s₁).2 := by
  have happly : (e.apply cancelled t).on s = (do
      opening t
      let r ← execute cancelled steps { success := true, tweakId := t.id }
      saveSnapshot t
      let r := { r with requiresRestart := r.success && t.requiresRestart }
      finish "APPLY" t s.host.clock r.summary r).on s := by
    have hnow : (onHost Host.now : Work μ Moment).on s = (.ok s.host.clock, s) := rfl
    have hdet : (onHost (pure false : Call μ Bool)).on s = (.ok false, s) := rfl
    unfold apply opening
    rw [alreadyApplied_off hcheck, hmay, hsteps, bind_assoc, Act.on_bind, hnow]
    dsimp only
    rw [Act.on_bind, hdet]
    rfl
  have hafter : ∀ r : Result, (do
      saveSnapshot t
      let r := { r with requiresRestart := r.success && t.requiresRestart }
      finish "APPLY" t s.host.clock r.summary r : Work μ Result).Keeps ledger :=
    fun r => .bind (keeps_saveSnapshot t) fun _ => keeps_finish _ _ _ _ _
  rw [happly, Act.on_bind]
  rcases (opening t).on s with ⟨f | _, s₁⟩
  · rfl
  · dsimp only
    rw [Act.on_bind]
    rcases (execute cancelled steps { success := true, tweakId := t.id }).on s₁ with ⟨f | r, s₂⟩
    · rfl
    · exact hafter r s₂

/-- An apply whose snapshot can be read runs its steps; otherwise it leaves the machine as
it is. -/
theorem apply_machine (cancelled : Session μ → Bool)
    (hcheck : e.skipIfApplied = false ∨ e.detector = none) (hmay : e.mayRun t.operations = true)
    (hsteps : e.runSteps t.id .apply t.operations = .ok steps) (s : Session μ) :
    ((∃ f, ((loadSnapshot t).on s).1 = .error f) ∧
      machineOf ((e.apply cancelled t).on s).2 = machineOf s) ∨
    ∃ s₁, machineOf s₁ = machineOf s ∧ machineOf ((e.apply cancelled t).on s).2 =
      machineOf ((execute cancelled steps { success := true, tweakId := t.id }).on s₁).2 := by
  obtain ⟨s₁, hs₁, hcore⟩ := say_on (μ := μ) .info speaker
    ("Applying tweak " ++ t.id ++ " (" ++ toString t.operations.count ++ " operations)") s
  have hopening : (opening t).on s = (loadSnapshot t).on s₁ := by rw [opening, Act.on_bind, hs₁]
  have hread := (dependsOn_loadSnapshot t s₁ s hcore).1
  have hkept := congrArg Prod.fst (keeps_opening t s)
  have hledger := apply_ledger cancelled hcheck hmay hsteps s
  rw [hopening] at hkept hledger
  rcases hload : (loadSnapshot t).on s₁ with ⟨f | _, s₂⟩ <;> rw [hload] at hread hkept hledger
  · exact .inl ⟨⟨f, hread.symm⟩, (congrArg Prod.fst hledger).trans hkept⟩
  · exact .inr ⟨s₂, hkept, congrArg Prod.fst hledger⟩

end Engine

/-- What the action on the open store does, withStore does. -/
theorem withStore_on {μ : Type} {s s' : Session μ} {st : Snapshot.Store} (caught : Failure → Bool)
    (what id : String) {action : Snapshot.Store → Work μ Unit} (hs : s.core.store = some st)
    (h : (action st).on s = (.ok (), s')) :
    (Engine.withStore caught what id action).on s = (.ok (), s') := by
  have hstore : (openStore? : Work μ _).on s = (.ok (some st), s) := by rw [← hs]; rfl
  have hrescue : ((action st).rescue caught).on s = (.ok (.ok ()), s') := by
    rw [Act.rescue, Act.on_bind, Act.on_attempt, h]
    rfl
  rw [Engine.withStore, Act.on_bind, hstore]
  dsimp only
  rw [Act.on_bind, hrescue]
  rfl

end TweakEngine
