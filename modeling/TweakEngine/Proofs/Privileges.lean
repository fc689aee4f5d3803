/-
# Runs without administrator rights

An engine that requires administrator rights and has none refuses every call whose declared
operations need them.  What it then still writes is plain, that is, files and the hive of the
current user, or goes to the hive of the target user instead (`unprivileged_call`).  The second
kind is the gap: the guard looks at the hive that an operation declares, and the write goes
where `Engine.resolve` sends it, below the machine-wide hive of all users
(`sample_redirected`).

That no other write is issued is said by exchanging the mutator: one that does something else
on other writes cannot be told apart.
-/

import TweakEngine.Execution.Apply
import TweakEngine.Proofs.Actions

namespace TweakEngine

variable {μ α β : Type}

namespace Act

variable {σ : Type}

theorem ext {a b : Act σ α} (h : ∀ s, a.on s = b.on s) : a = b := funext h

/-- A continuation counts only at what comes before it. -/
theorem bind_congr_ok {a : Act σ α} {k k' : α → Act σ β}
    (h : ∀ s x t, a.on s = (.ok x, t) → k x = k' x) : a >>= k = a >>= k' := by
  refine ext fun s => ?_
  rw [on_bind, on_bind]
  rcases ha : a.on s with ⟨f | x, t⟩
  · rfl
  · dsimp only
    rw [h s x t ha]

end Act

namespace Write

/-- The key that a write to the registry is about. -/
def key? : Write → Option (Hive × Datum)
  | setValue hive path _ _ | deleteValue hive path _ | createKey hive path
  | deleteKey hive path => some (hive, path)
  | _ => none

/-- A write that needs no administrator rights: to a file, or below a hive that is not
machine-wide. -/
def IsPlain : Write → Prop
  | setValue hive .. | deleteValue hive .. | createKey hive _ | deleteKey hive _ =>
    hive.isMachineWide = false
  | stopService _ | startService _ | setStartup .. | runScript .. => False
  | writeFile .. | createDirectory _ | deletePath _ | movePath .. | copyPath .. => True

theorem isPlain_of_key {w : Write} {hive : Hive} {path : Datum} (hw : w.key? = some (hive, path))
    (hh : hive.isMachineWide = false) : w.IsPlain := by
  cases w <;> cases hw <;> exact hh

end Write

/-- Two mutators read alike, and do the same on writes with a property. -/
structure Mutator.AgreesOn (P : Write → Prop) (m m' : Mutator μ) : Prop where
  readValue : m'.readValue = m.readValue
  keyExists : m'.keyExists = m.keyExists
  queryService : m'.queryService = m.queryService
  pathExists : m'.pathExists = m.pathExists
  readText : m'.readText = m.readText
  write : ∀ w, P w → m'.write w = m.write w

namespace Engine

open Session

/-- The engine with another mutator. -/
def through (e : Engine μ) (m : Mutator μ) : Engine μ := { e with mutator := m }

/-- A write that goes below the hive of the target user. -/
def Redirects (e : Engine μ) (w : Write) : Prop :=
  e.targetUser.truthy = true ∧
    ∃ path : String, w.key? = some (.users, .text (e.targetUser.display ++ "\\" ++ path))

/-- What an engine writes without administrator rights. -/
def MayWrite (e : Engine μ) (w : Write) : Prop := w.IsPlain ∨ e.Redirects w

variable {e : Engine μ} {m : Mutator μ} {slot : Slot}

theorem write_through (hm : e.mutator.AgreesOn e.MayWrite m) {w : Write} (hw : e.MayWrite w) :
    (e.through m).write w = e.write w := by
  unfold write through
  rw [hm.write w hw]

theorem resolve_through (hm : e.mutator.AgreesOn e.MayWrite m) (hive : Hive) (keyPath : Datum) :
    (e.through m).resolve hive keyPath = e.resolve hive keyPath := by
  unfold resolve through
  rw [hm.keyExists]

/-- Where an operation in the current user's hive goes, writing is allowed. -/
theorem mayWrite_of_resolve {keyPath : Datum} {h h' : Host μ} {target : Hive × Datum}
    (hr : (e.resolve .currentUser keyPath).on h = (.ok target, h')) {w : Write}
    (hw : w.key? = some target) : e.MayWrite w := by
  unfold resolve at hr
  split at hr
  · cases hr
    exact .inl (Write.isPlain_of_key hw rfl)
  · next ht =>
    obtain ⟨there, h₁, -, hr⟩ := Act.ok_of_on_bind hr
    cases there with
    | false => cases hr
    | true =>
      cases hr
      simp only [ne_eq, not_true_eq_false, decide_false, Bool.false_or, Bool.not_eq_true',
        Bool.not_eq_false] at ht
      exact .inr ⟨ht, keyPath.display, hw⟩

/-- After resolving a key in the current user's hive, only what is done there counts. -/
theorem resolve_bind_congr {keyPath : Datum} {k k' : Hive × Datum → Work μ β}
    (hk : ∀ target, (∀ w : Write, w.key? = some target → e.MayWrite w) → k target = k' target) :
    (onHost (e.resolve .currentUser keyPath) >>= k) =
      (onHost (e.resolve .currentUser keyPath) >>= k') := by
  refine Act.bind_congr_ok fun s target t hr => hk target fun w hw => ?_
  obtain ⟨h, hresolve, -⟩ := Part.ok_of_on_lift (p := hostPart) hr
  exact mayWrite_of_resolve hresolve hw

/-! ## Steps -/

theorem runKey_through (hm : e.mutator.AgreesOn e.MayWrite m) {target : Hive × Datum}
    (ht : ∀ w : Write, w.key? = some target → e.MayWrite w) (create : Bool) :
    (e.through m).runKey slot target.1 target.2 create = e.runKey slot target.1 target.2 create := by
  unfold runKey
  rw [write_through hm (ht (.createKey target.1 target.2) rfl),
    write_through hm (ht (.deleteKey target.1 target.2) rfl)]
  unfold through
  rw [hm.keyExists]

theorem captureValue_through (hm : e.mutator.AgreesOn e.MayWrite m) (hive : Hive)
    (keyPath name : Datum) :
    (e.through m).captureValue slot hive keyPath name = e.captureValue slot hive keyPath name := by
  unfold captureValue through
  rw [hm.readValue]

theorem runRegistry_through (hm : e.mutator.AgreesOn e.MayWrite m) {op : RegistryOperation}
    (hop : op.hive = .currentUser) : (e.through m).runRegistry slot op = e.runRegistry slot op := by
  unfold runRegistry
  rw [hop, resolve_through hm]
  refine resolve_bind_congr fun target ht => ?_
  dsimp only
  cases op.action with
  | createKey => exact runKey_through hm ht true
  | deleteKey => exact runKey_through hm ht false
  | setValue =>
    dsimp only
    rw [captureValue_through hm]
    refine bind_congr fun _ => bind_congr fun value? => ?_
    cases value? with
    | none => rfl
    | some value => exact congrArg (· >>= _) (write_through hm (ht (.setValue _ _ _ value) rfl))
  | deleteValue =>
    dsimp only
    rw [captureValue_through hm]
    refine bind_congr fun _ => ?_
    exact congrArg (· >>= _) (write_through hm (ht (.deleteValue _ _ _) rfl))

theorem restoringWrite_key {op : RegistryOperation} {c : RegistryCapture} {hive : Hive}
    {keyPath : Datum} {w : Write} (h : restoringWrite op c hive keyPath = some w) :
    w.key? = some (hive, keyPath) := by
  unfold restoringWrite at h
  split at h
  · split at h <;> cases h
    rfl
  · split at h <;> cases h
    rfl
  all_goals split at h <;> cases h <;> rfl

theorem restoreRegistry_through (hm : e.mutator.AgreesOn e.MayWrite m) {op : RegistryOperation}
    (hop : op.hive = .currentUser) :
    (e.through m).restoreRegistry slot op = e.restoreRegistry slot op := by
  unfold restoreRegistry
  refine bind_congr fun c? => ?_
  cases c? with
  | none => rfl
  | some c =>
    dsimp only
    rw [hop, resolve_through hm]
    refine resolve_bind_congr fun target ht => ?_
    cases hw : restoringWrite op c target.1 target.2 with
    | none => rfl
    | some w =>
      exact congrArg (fun a => discard a >>= _) (write_through hm (ht w (restoringWrite_key hw)))

/-! Files may be written at any time. -/

theorem fileWrite_through (hm : e.mutator.AgreesOn e.MayWrite m) {w : Write} (hw : w.IsPlain) :
    (e.through m).write w = e.write w := write_through hm (.inl hw)

theorem pathExists_through (hm : e.mutator.AgreesOn e.MayWrite m) (path : Datum) :
    (e.through m).mutator.pathExists path = e.mutator.pathExists path := by
  unfold through
  rw [hm.pathExists]

theorem runTransfer_through (hm : e.mutator.AgreesOn e.MayWrite m) {op : FileOperation} {w : Write}
    (hw : w.IsPlain) : (e.through m).runTransfer slot op w = e.runTransfer slot op w := by
  unfold runTransfer
  rw [fileWrite_through hm hw, pathExists_through hm]

theorem captureFile_through (hm : e.mutator.AgreesOn e.MayWrite m) (op : FileOperation) :
    (e.through m).captureFile slot op = e.captureFile slot op := by
  unfold captureFile through
  rw [hm.pathExists, hm.readText]

theorem runFile_through (hm : e.mutator.AgreesOn e.MayWrite m) (op : FileOperation) :
    (e.through m).runFile slot op = e.runFile slot op := by
  unfold runFile
  cases op.action with
  | setAttributes | takeOwnership => rfl
  | rename | copy => exact runTransfer_through hm trivial
  | delete =>
    dsimp only
    rw [captureFile_through hm, fileWrite_through (w := .copyPath ..) hm trivial,
      fileWrite_through (w := .deletePath _) hm trivial]
  | createFile =>
    dsimp only
    rw [captureFile_through hm, fileWrite_through (w := .writeFile ..) hm trivial]
  | createDirectory =>
    dsimp only
    rw [captureFile_through hm, fileWrite_through (w := .createDirectory _) hm trivial]

theorem undelete_through (hm : e.mutator.AgreesOn e.MayWrite m) (op : FileOperation)
    (c : FileCapture) : (e.through m).undelete op c = e.undelete op c := by
  unfold undelete
  rw [pathExists_through hm, fileWrite_through (w := .movePath ..) hm trivial,
    fileWrite_through (w := .writeFile ..) hm trivial]

theorem undoFile_through (hm : e.mutator.AgreesOn e.MayWrite m) (op : FileOperation)
    (c : FileCapture) : (e.through m).undoFile op c = e.undoFile op c := by
  unfold undoFile
  rw [undelete_through hm, pathExists_through hm, pathExists_through hm,
    fileWrite_through (w := .deletePath op.path) hm trivial,
    fileWrite_through (w := .deletePath op.target) hm trivial,
    fileWrite_through (w := .writeFile ..) hm trivial,
    fileWrite_through (w := .movePath ..) hm trivial]

theorem restoreFile_through (hm : e.mutator.AgreesOn e.MayWrite m) (op : FileOperation) :
    (e.through m).restoreFile slot op = e.restoreFile slot op := by
  unfold restoreFile
  simp only [undoFile_through hm]

/-! ## Calls -/

theorem stepsFor_congr {ω : Type} {tweakId : String} {side : Side} {ops : List ω}
    {step step' : Slot → ω → Step μ} (h : ∀ slot, ∀ op ∈ ops, step slot op = step' slot op) :
    stepsFor tweakId side ops step = stepsFor tweakId side ops step' :=
  List.map_congr_left fun x hx => h _ x.1 (List.fst_mem_of_mem_zipIdx hx)

/-- Operations that need no administrator rights. -/
structure Unprivileged (ops : OperationSet) : Prop where
  registry : ∀ op ∈ ops.registry, op.hive = .currentUser
  services : ops.services = []
  scripts : ops.scripts = []

/-- **The guard** lets operations run that need no administrator rights. -/
theorem unprivileged_of_mayRun {ops : OperationSet} (hr : e.requireElevation = true)
    (hn : e.elevated = false) (h : e.mayRun ops = true) : Unprivileged ops := by
  rw [mayRun, hr, hn, Bool.or_false, Bool.not_true, Bool.false_or, Bool.not_eq_true',
    OperationSet.requiresElevation, Bool.or_eq_false_iff, Bool.or_eq_false_iff] at h
  obtain ⟨⟨hregistry, hservices⟩, hscripts⟩ := h
  refine ⟨fun op hop => ?_, ?_, ?_⟩
  · have hhive := List.any_eq_false.mp hregistry op hop
    rw [Hive.isMachineWide, bne_iff_ne] at hhive
    exact Decidable.not_not.mp hhive
  · rwa [Bool.not_eq_false', List.isEmpty_iff] at hservices
  · rwa [Bool.not_eq_false', List.isEmpty_iff] at hscripts

theorem runSteps_through (hm : e.mutator.AgreesOn e.MayWrite m) {ops : OperationSet}
    (hops : Unprivileged ops) (tweakId : String) (side : Side) :
    (e.through m).runSteps tweakId side ops = e.runSteps tweakId side ops := by
  have hregistry :
      stepsFor tweakId side ops.registry
          (fun slot op => (⟨op.describe, (e.through m).runRegistry slot op⟩ : Step μ)) =
        stepsFor tweakId side ops.registry fun slot op => ⟨op.describe, e.runRegistry slot op⟩ :=
    stepsFor_congr fun slot op hop => congrArg (Step.mk _) (runRegistry_through hm (hops.registry op hop))
  have hfiles :
      stepsFor tweakId side ops.files
          (fun slot op => (⟨op.describe, (e.through m).runFile slot op⟩ : Step μ)) =
        stepsFor tweakId side ops.files fun slot op => ⟨op.describe, e.runFile slot op⟩ :=
    stepsFor_congr fun slot op _ => congrArg (Step.mk _) (runFile_through hm op)
  unfold runSteps
  rw [hops.services, hops.scripts, hregistry, hfiles]
  rfl

theorem restoreSteps_through (hm : e.mutator.AgreesOn e.MayWrite m) {ops : OperationSet}
    (hops : Unprivileged ops) (tweakId : String) :
    (e.through m).restoreSteps tweakId ops = e.restoreSteps tweakId ops := by
  have hregistry :
      stepsFor tweakId .apply ops.registry (fun slot op =>
          (⟨undoing "Restore" op.describe, (e.through m).restoreRegistry slot op⟩ : Step μ)) =
        stepsFor tweakId .apply ops.registry fun slot op =>
          ⟨undoing "Restore" op.describe, e.restoreRegistry slot op⟩ :=
    stepsFor_congr fun slot op hop =>
      congrArg (Step.mk _) (restoreRegistry_through hm (hops.registry op hop))
  have hfiles :
      stepsFor tweakId .apply ops.files (fun slot op =>
          (⟨undoing "Restore" op.describe, (e.through m).restoreFile slot op⟩ : Step μ)) =
        stepsFor tweakId .apply ops.files fun slot op =>
          ⟨undoing "Restore" op.describe, e.restoreFile slot op⟩ :=
    stepsFor_congr fun slot op _ => congrArg (Step.mk _) (restoreFile_through hm op)
  unfold restoreSteps
  rw [hops.services, hops.scripts, hregistry, hfiles]
  rfl

variable {t : Tweak}

theorem apply_through (hr : e.requireElevation = true) (hn : e.elevated = false)
    (hm : e.mutator.AgreesOn e.MayWrite m) (cancelled : Session μ → Bool) (t : Tweak) :
    (e.through m).apply cancelled t = e.apply cancelled t := by
  have hdetector : (e.through m).alreadyApplied t = e.alreadyApplied t := rfl
  have hguard : (e.through m).mayRun t.operations = e.mayRun t.operations := rfl
  unfold apply
  rw [hdetector, hguard]
  cases hrun : e.mayRun t.operations with
  | false => simp only [Bool.not_false, if_true]
  | true => rw [runSteps_through hm (unprivileged_of_mayRun hr hn hrun)]

theorem revertSteps_through (hm : e.mutator.AgreesOn e.MayWrite m)
    (hops : Unprivileged t.revertOperations) : (e.through m).revertSteps t = e.revertSteps t := by
  unfold revertSteps
  rw [Tweak.revertOperations] at hops
  cases hundo : t.undo? with
  | some ops =>
    rw [hundo, Option.getD_some] at hops
    dsimp only
    rw [runSteps_through hm hops]
  | none =>
    rw [hundo, Option.getD_none] at hops
    dsimp only
    rw [restoreSteps_through hm hops]

theorem revert_through (hr : e.requireElevation = true) (hn : e.elevated = false)
    (hm : e.mutator.AgreesOn e.MayWrite m) (cancelled : Session μ → Bool) (t : Tweak) :
    (e.through m).revert cancelled t = e.revert cancelled t := by
  have hguard : (e.through m).mayRun t.revertOperations = e.mayRun t.revertOperations := rfl
  unfold revert
  rw [hguard]
  cases hrun : e.mayRun t.revertOperations with
  | false => simp only [Bool.not_false, if_true]
  | true => rw [revertSteps_through hm (unprivileged_of_mayRun hr hn hrun)]

/-- **What is written without administrator rights.**  Applying or reverting any tweak, through
captures or undo operations and whatever the target user is, an engine that requires
administrator rights and has none issues only plain writes and writes below the hive of the
target user: no other write of its mutator matters. -/
theorem unprivileged_call (hr : e.requireElevation = true) (hn : e.elevated = false)
    (hm : e.mutator.AgreesOn e.MayWrite m) (cancelled : Session μ → Bool) (t : Tweak) :
    (e.through m).apply cancelled t = e.apply cancelled t ∧
      (e.through m).revert cancelled t = e.revert cancelled t :=
  ⟨apply_through hr hn hm cancelled t, revert_through hr hn hm cancelled t⟩

end Engine

/-- A tweak that sets a value in the hive of the current user. -/
def userTweak : Tweak :=
  { id := "a"
    name := .text "A"
    operations :=
      { registry := [{ hive := .currentUser, keyPath := .text "Demo", value := .int 1
                       valueName := .text "level", action := .setValue }] } }

/-- An engine without administrator rights, with a target user. -/
def userEngine : Engine Machine :=
  { mutator := Machine.mutator, elevated := false, targetUser := .text "S-1-5-21-1000" }

/-- A session on a machine with the hive of the target user. -/
def userSession : Session Machine :=
  { host := { machine := { keys := [((.users, "s-1-5-21-1000"), [])] } } }

/-- A mutator that runs no scripts. -/
def scriptless : Mutator Machine :=
  { Machine.mutator with
    write := fun w => match w with
      | .runScript script timeout elevated =>
        (throw (.refused "no scripts") : Call Machine (Write.runScript script timeout elevated).Reply)
      | w => Machine.mutator.write w }

theorem userEngine_scriptless :
    userEngine.requireElevation = true ∧ userEngine.elevated = false ∧
      userEngine.mutator.AgreesOn userEngine.MayWrite scriptless ∧
      (userEngine.through scriptless).apply (fun _ => false) userTweak =
        userEngine.apply (fun _ => false) userTweak := by
  have hm : userEngine.mutator.AgreesOn userEngine.MayWrite scriptless := by
    refine ⟨rfl, rfl, rfl, rfl, rfl, fun w hw => ?_⟩
    cases w with
    | runScript =>
      rcases hw with hplain | ⟨-, path, hkey⟩
      · exact hplain.elim
      · cases hkey
    | _ => rfl
  exact ⟨rfl, rfl, hm, (Engine.unprivileged_call rfl rfl hm (fun _ => false) userTweak).1⟩

/-- The operations need no administrator rights, but with a target user the value is set below
the machine-wide hive of all users. -/
theorem sample_redirected :
    userEngine.requireElevation = true ∧ userEngine.elevated = false ∧
    userTweak.operations.requiresElevation = false ∧
    ((userEngine.apply (fun _ => false) userTweak).on userSession).2.host.outline =
      [some "set HKU\\S-1-5-21-1000\\Demo\\level = 1"] ∧
    Hive.users.isMachineWide = true := by
  decide +kernel

end TweakEngine
