/-
# Applying twice

A tweak of registry operations, service operations, scripts and file operations that overwrite
leaves the same when it is applied a second time (`Engine.apply_apply`): an apply is a run of
overwritings, the same one both times, or leaves the machine alone.  There are two exceptions.
The first apply of a tweak that makes the hive of the target user refuses the operations on this
hive that come before, and the second one carries them out (`sample_hive_made`).  When the
snapshot in the store is broken the first apply stops before its operations, and the second one
may not read the snapshot again (`sample_broken_snapshot`).
-/

import TweakEngine.Proofs.OverwritingSteps
import TweakEngine.Proofs.TweakCalls

namespace TweakEngine

open Session

namespace Engine

variable {e : Engine Machine} {m₀ : Machine} {g : Gate Spot.Holding}

/-- A run of steps that overwrite is a run of their overwritings. -/
theorem execute_overwrites {steps : List (Step Machine)}
    (h : ∀ st ∈ steps, ∃ a : Overwrite Spot.Holding, a.Respects g ∧ st.Overwrites g m₀ a) :
    ∃ as : List (Overwrite Spot.Holding), (∀ a ∈ as, a.Respects g) ∧
      ∀ r s, m₀.Kin (machineOf s) →
        m₀.Kin (machineOf ((execute (fun _ => false) steps r).on s).2) ∧
        (machineOf ((execute (fun _ => false) steps r).on s).2).holding =
          Overwrite.run g as (machineOf s).holding := by
  induction steps with
  | nil => exact ⟨[], nofun, fun r s hs => ⟨hs, rfl⟩⟩
  | cons st steps ih =>
    obtain ⟨a, ha, hover⟩ := h st List.mem_cons_self
    obtain ⟨as, has, hrun⟩ := ih fun st' hst' => h st' (List.mem_cons_of_mem _ hst')
    refine ⟨a :: as, List.forall_mem_cons.mpr ⟨ha, has⟩, fun r s hs => ?_⟩
    obtain ⟨r₁, f?, s₁, hstep, hcore, -, -, -, hnone, -⟩ := runStep_on st r s
    obtain ⟨hkin, hholding, hcontinues⟩ := hover _ hs s rfl
    have hmachine : machineOf s₁ = (st.run.on s).2.core.machine := congrArg Core.machine hcore
    rw [← hmachine] at hkin hholding
    rw [← hnone] at hcontinues
    rw [execute_of_step rfl hstep]
    cases f? with
    | none =>
      have hcontinues : a.continues g (machineOf s).holding = true := hcontinues.symm
      rw [Overwrite.run, hcontinues, if_pos rfl]
      have hrest := hrun r₁ s₁ (hs.trans hkin)
      rw [hholding] at hrest
      exact hrest
    | some f =>
      have hcontinues : a.continues g (machineOf s).holding = false := hcontinues.symm
      rw [Overwrite.run, hcontinues, if_neg Bool.false_ne_true]
      exact ⟨hs.trans hkin, hholding⟩

/-- The session after a tweak has been applied without a cancellation. -/
def applied (e : Engine Machine) (t : Tweak) (s : Session Machine) : Session Machine :=
  ((e.apply (fun _ => false) t).on s).2

/-- An apply that reads its snapshot is a run of overwritings, the same on all akin machines. -/
theorem applied_overwrites {t : Tweak} (he : e.mutator = Machine.mutator)
    (hcheck : e.skipIfApplied = false ∨ e.detector = none) (h₀ : m₀.Willing)
    (hfiles : ∀ op ∈ t.operations.files, op.Overwrites) (hmay : e.mayRun t.operations = true)
    {steps : List (Step Machine)} (hsteps : e.runSteps t.id .apply t.operations = .ok steps) :
    ∃ as : List (Overwrite Spot.Holding), (∀ a ∈ as, a.Respects e.gate) ∧
      ∀ s, m₀.Kin (machineOf s) →
        ((∃ f, ((loadSnapshot t).on s).1 = .error f) ∧ machineOf (e.applied t s) = machineOf s) ∨
        (m₀.Kin (machineOf (e.applied t s)) ∧
          (machineOf (e.applied t s)).holding = Overwrite.run e.gate as (machineOf s).holding) := by
  obtain ⟨as, hrespects, hrun⟩ := execute_overwrites (g := e.gate) fun st hst =>
    runSteps_overwrite he h₀ hfiles hsteps hst
  refine ⟨as, hrespects, fun s hs => ?_⟩
  rcases apply_machine (fun _ => false) hcheck hmay hsteps s with hbroken | ⟨s₁, hs₁, hmachine⟩
  · exact .inl hbroken
  refine .inr ?_
  obtain ⟨hkin, hholding⟩ := hrun { success := true, tweakId := t.id } s₁ (hs₁ ▸ hs)
  rw [← hmachine] at hkin hholding
  rw [hs₁] at hholding
  exact ⟨hkin, hholding⟩

/-- **Applying a tweak twice leaves what applying it once leaves**, when it sets up keys, values,
services, files and directories in any order, the already-applied check is off, no request is
refused and what the store has on the tweak can be read.  With a target user the first apply must
not bring the user's hive into being. -/
theorem apply_apply {t : Tweak} {s : Session Machine} (he : e.mutator = Machine.mutator)
    (hcheck : e.skipIfApplied = false ∨ e.detector = none) (hm : s.core.machine.Willing)
    (hfiles : ∀ op ∈ t.operations.files, op.Overwrites)
    (hload : ((loadSnapshot t).on s).1 = .ok ())
    (hhive : e.targetUser.truthy = true → (e.applied t s).core.machine.hasKey e.hiveKey = true →
      s.core.machine.hasKey e.hiveKey = true) :
    (e.applied t s).core.machine.Same (e.applied t (e.applied t s)).core.machine := by
  have hsame : machineOf (e.applied t (e.applied t s)) = machineOf (e.applied t s) →
      (machineOf (e.applied t s)).Same (machineOf (e.applied t (e.applied t s))) := by
    intro h
    rw [h]
    exact (Machine.Kin.refl _).same rfl
  cases hmay : e.mayRun t.operations with
  | false => exact hsame (apply_refused _ hcheck hmay _)
  | true =>
    cases hsteps : e.runSteps t.id .apply t.operations with
    | error f => exact hsame (apply_undescribed _ hcheck hmay hsteps _)
    | ok steps =>
      obtain ⟨as, hrespects, hrun⟩ := applied_overwrites he hcheck hm hfiles hmay hsteps
      rcases hrun s (.refl _) with ⟨⟨f, hf⟩, -⟩ | ⟨hkin, honce⟩
      · cases hf.symm.trans hload
      rcases hrun (e.applied t s) hkin with ⟨-, h⟩ | ⟨hkin', htwice⟩
      · exact hsame h
      refine (hkin.symm.trans hkin').same ?_
      have hgate : e.gate.isOpen (Overwrite.run e.gate as (machineOf s).holding) = true →
          e.gate.isOpen (machineOf s).holding = true := by
        intro hopen
        rw [← honce] at hopen
        rcases Bool.or_eq_true_iff.mp hopen with huser | hthere
        · exact Bool.or_eq_true_iff.mpr (.inl huser)
        · cases htruthy : e.targetUser.truthy with
          | false => exact Bool.or_eq_true_iff.mpr (.inl (by rw [htruthy]; rfl))
          | true => exact Bool.or_eq_true_iff.mpr (.inr (hhive htruthy hthere))
      show (machineOf (e.applied t (e.applied t s))).holding = (machineOf (e.applied t s)).holding
      rw [htwice, honce, Overwrite.run_run hrespects hgate]

end Engine

/-! ## A hive that the tweak makes -/

section

/-- An engine for a target user, without the check. -/
def redirectingEngine : Engine Machine :=
  { mutator := Machine.mutator, skipIfApplied := false, targetUser := .text "S-1-5-21-1000" }

/-- Sets a value of the user, makes the user's hive, and overlaps in services and files. -/
def sampleSetup : Tweak :=
  { id := "t"
    name := .text "T"
    operations :=
      { registry :=
          [{ hive := .currentUser, keyPath := .text "Software\\X", valueName := .text "V",
             value := .int 1 },
           { hive := .users, keyPath := .text "S-1-5-21-1000", action := .createKey },
           { hive := .currentUser, keyPath := .text "Software\\Y", action := .deleteKey }]
        services := [{ service := .text "Svc", action := .stop }, { service := .text "Svc" }]
        files :=
          [{ path := .text "a", action := .delete },
           { path := .text "a", action := .createFile, content := .text "new" }] } }

/-- A session on a machine with some keys, a service and a file. -/
def setupSession (keys : Assoc (Hive × String) (Assoc String (Option RegistryValue))) :
    Session Machine :=
  { host := { machine :=
      { keys
        services := [("svc", { name := "Svc" })]
        files := [("a", .text "old")] } } }

theorem sampleSetup_overwrites : ∀ op ∈ sampleSetup.operations.files, op.Overwrites := by
  intro op hop
  rcases List.mem_cons.mp hop with rfl | hop
  · exact .delete rfl rfl
  · cases List.mem_singleton.mp hop
    exact .createFile rfl

/-- When the hive is there, the second apply changes nothing. -/
theorem sample_applied_twice :
    let s := setupSession [((.users, "s-1-5-21-1000"), [])]
    redirectingEngine.mutator = Machine.mutator ∧ redirectingEngine.skipIfApplied = false ∧
      s.core.machine.Willing ∧ (∀ op ∈ sampleSetup.operations.files, op.Overwrites) ∧
      ((Engine.loadSnapshot sampleSetup).on s).1 = .ok () ∧
      s.core.machine.hasKey redirectingEngine.hiveKey = true ∧
      (redirectingEngine.applied sampleSetup s).core.machine.Same
        (redirectingEngine.applied sampleSetup
          (redirectingEngine.applied sampleSetup s)).core.machine := by
  intro s
  have hhive : s.core.machine.hasKey redirectingEngine.hiveKey = true := by decide +kernel
  exact ⟨rfl, rfl, fun _ => rfl, sampleSetup_overwrites, rfl, hhive,
    Engine.apply_apply rfl (.inl rfl) (fun _ => rfl) sampleSetup_overwrites rfl fun _ _ => hhive⟩

/-- When the tweak makes the hive, the first apply refuses to set the value and the second one
sets it. -/
theorem sample_hive_made :
    let s := setupSession []
    let once := redirectingEngine.applied sampleSetup s
    let twice := redirectingEngine.applied sampleSetup once
    redirectingEngine.mutator = Machine.mutator ∧ redirectingEngine.skipIfApplied = false ∧
      s.core.machine.Willing ∧ (∀ op ∈ sampleSetup.operations.files, op.Overwrites) ∧
      once.core.machine.stored (.users, "s-1-5-21-1000\\software\\x") "v" = none ∧
      twice.core.machine.stored (.users, "s-1-5-21-1000\\software\\x") "v" =
        some (some (.dword 1)) ∧
      ¬once.core.machine.Same twice.core.machine := by
  intro s once twice
  have honce : once.core.machine.stored (.users, "s-1-5-21-1000\\software\\x") "v" = none := by
    decide +kernel
  have htwice : twice.core.machine.stored (.users, "s-1-5-21-1000\\software\\x") "v" =
      some (some (.dword 1)) := by decide +kernel
  refine ⟨rfl, rfl, fun _ => rfl, sampleSetup_overwrites, honce, htwice, fun hsame => ?_⟩
  have hvalue := hsame.values (.users, "s-1-5-21-1000\\software\\x") "v"
  rw [honce, htwice] at hvalue
  cases hvalue

/-- Makes one key. -/
def sampleKeyMaker : Tweak :=
  { id := "t"
    name := .text "T"
    operations :=
      { registry := [{ hive := .currentUser, keyPath := .text "X", action := .createKey }] } }

/-- A session with a snapshot file that has a list in the place of the captures of services. -/
def brokenSession : Session Machine :=
  { host :=
      { machine := {}
        disk := { entries :=
          [(["s"], .file (Encoding.utf8 "\x7b\"registry\":\x7b\"0\":\x7b\x7d\x7d,\"services\":[]\x7d"))] } }
    store := some
      { directory := Path.ofText "/d"
        index := [("t", { tweakId := .text "t", tweakName := .null, timestamp := .null
                          filePath := .text "/s" })] } }

set_option maxRecDepth 100000 in
/-- The first apply reads the captures of the registry and stops at those of services; the
second one has all captures and makes the key. -/
theorem sample_broken_snapshot :
    let e : Engine Machine := { mutator := Machine.mutator, skipIfApplied := false }
    let once := e.applied sampleKeyMaker brokenSession
    let twice := e.applied sampleKeyMaker once
    ((Engine.loadSnapshot sampleKeyMaker).on brokenSession).1 =
      .error (.noAttribute "'list' object has no attribute 'items'") ∧
      once.core.machine.hasKey (.currentUser, "x") = false ∧
      twice.core.machine.hasKey (.currentUser, "x") = true ∧
      ¬once.core.machine.Same twice.core.machine := by
  intro e once twice
  have honce : once.core.machine.hasKey (.currentUser, "x") = false := by decide +kernel
  have htwice : twice.core.machine.hasKey (.currentUser, "x") = true := by decide +kernel
  refine ⟨by decide +kernel, honce, htwice, fun hsame => ?_⟩
  have hkeys := hsame.keys (.currentUser, "x")
  rw [honce, htwice] at hkeys
  cases hkeys

end
end TweakEngine
