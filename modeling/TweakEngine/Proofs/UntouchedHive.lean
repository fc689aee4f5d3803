/-
# The hive of the running user out of reach

With a target user an engine sends every operation on the current user's hive to the hive of the
target user.  No request is then made about the hive of the running user: a mutator that refuses
all such requests (`Mutator.barred`) cannot be told from the one that it is made of
(`Engine.call_barred`), whether operations run or are restored.
-/

import TweakEngine.Proofs.StoppedCalls
import TweakEngine.Proofs.Privileges

namespace TweakEngine

open Session

variable {μ β : Type}

/-! ## Requests about other hives -/

/-- Whether a write is not about a key of the current user. -/
def Write.elsewhere (w : Write) : Bool := w.key?.all fun k => k.1 ≠ .currentUser

/-- The refusal of everything about the hive of the current user. -/
def barredHive : Failure := .refused "The hive of the current user is barred"

/-- The mutator that refuses every request about the hive of the current user. -/
def Mutator.barred (m : Mutator μ) : Mutator μ :=
  { m with
    readValue := fun hive path name =>
      if hive = .currentUser then throw barredHive else m.readValue hive path name
    keyExists := fun hive path =>
      if hive = .currentUser then throw barredHive else m.keyExists hive path
    write := fun w => if w.elsewhere then m.write w else throw barredHive }

namespace Engine

variable {e : Engine μ} {slot : Slot}

theorem write_barred (e : Engine μ) {w : Write} (hw : w.elsewhere = true) :
    (e.through e.mutator.barred).write w = e.write w := congrArg onHost (if_pos hw)

/-- A write that is not about the registry. -/
theorem plainWrite_barred (e : Engine μ) {w : Write} (hw : w.key? = none) :
    (e.through e.mutator.barred).write w = e.write w :=
  write_barred e (by rw [Write.elsewhere, hw]; rfl)

theorem resolve_barred (e : Engine μ) (hive : Hive) (path : Datum) :
    (e.through e.mutator.barred).resolve hive path = e.resolve hive path := rfl

/-- With a target user no operation on the registry goes to the hive of the running user. -/
theorem ne_currentUser_of_resolve (hu : e.targetUser.truthy = true) {hive : Hive} {path : Datum}
    {h h' : Host μ} {target : Hive × Datum} (hr : (e.resolve hive path).on h = (.ok target, h')) :
    target.1 ≠ .currentUser := by
  unfold resolve at hr
  split at hr
  · next hstays =>
    rw [hu, Bool.not_true, Bool.or_false, decide_eq_true_iff] at hstays
    cases hr
    exact hstays
  · obtain ⟨there, h₁, -, hr⟩ := Act.ok_of_on_bind hr
    cases there with
    | false => cases hr
    | true =>
      cases hr
      exact nofun

/-- After resolving, only what is done elsewhere counts. -/
theorem resolve_elsewhere (hu : e.targetUser.truthy = true) {hive : Hive} {path : Datum}
    {k k' : Hive × Datum → Work μ β}
    (hk : ∀ target, target.1 ≠ .currentUser → k target = k' target) :
    (onHost (e.resolve hive path) >>= k) = (onHost (e.resolve hive path) >>= k') := by
  refine Act.bind_congr_ok fun s target t hr => hk target ?_
  obtain ⟨h, hresolve, -⟩ := Part.ok_of_on_lift (p := hostPart) hr
  exact ne_currentUser_of_resolve hu hresolve

/-! ### Operations -/

section

variable {hive : Hive} {path : Datum}

/-- A write about a key of another hive. -/
theorem keyWrite_barred (e : Engine μ) (hh : hive ≠ .currentUser) {w : Write}
    (hw : w.key? = some (hive, path)) : (e.through e.mutator.barred).write w = e.write w :=
  write_barred e (by rw [Write.elsewhere, hw]; exact decide_eq_true hh)

theorem keyExists_barred (e : Engine μ) (hh : hive ≠ .currentUser) (path : Datum) :
    (e.through e.mutator.barred).mutator.keyExists hive path = e.mutator.keyExists hive path :=
  if_neg hh

theorem captureValue_barred (e : Engine μ) (slot : Slot) (hh : hive ≠ .currentUser)
    (path name : Datum) : (e.through e.mutator.barred).captureValue slot hive path name =
      e.captureValue slot hive path name := by
  have hread : (e.through e.mutator.barred).mutator.readValue hive path name =
      e.mutator.readValue hive path name := if_neg hh
  unfold captureValue
  rw [hread]

theorem runKey_barred (e : Engine μ) (slot : Slot) (hh : hive ≠ .currentUser) (path : Datum)
    (create : Bool) : (e.through e.mutator.barred).runKey slot hive path create =
      e.runKey slot hive path create := by
  unfold runKey
  rw [keyExists_barred e hh, keyWrite_barred e hh (w := .createKey hive path) rfl,
    keyWrite_barred e hh (w := .deleteKey hive path) rfl]

end

theorem runRegistry_barred (hu : e.targetUser.truthy = true) (slot : Slot)
    (op : RegistryOperation) :
    (e.through e.mutator.barred).runRegistry slot op = e.runRegistry slot op := by
  unfold runRegistry
  rw [resolve_barred]
  refine resolve_elsewhere hu fun target hh => ?_
  dsimp only
  cases op.action with
  | createKey => exact runKey_barred e slot hh _ true
  | deleteKey => exact runKey_barred e slot hh _ false
  | setValue =>
    dsimp only
    rw [captureValue_barred e slot hh]
    refine bind_congr fun _ => bind_congr fun value? => ?_
    cases value? with
    | none => rfl
    | some value =>
      exact congrArg (· >>= _) (keyWrite_barred e hh (w := .setValue _ _ _ value) rfl)
  | deleteValue =>
    dsimp only
    rw [captureValue_barred e slot hh]
    refine bind_congr fun _ => ?_
    exact congrArg (· >>= _) (keyWrite_barred e hh (w := .deleteValue _ _ _) rfl)

theorem restoreRegistry_barred (hu : e.targetUser.truthy = true) (slot : Slot)
    (op : RegistryOperation) :
    (e.through e.mutator.barred).restoreRegistry slot op = e.restoreRegistry slot op := by
  unfold restoreRegistry
  refine bind_congr fun c? => ?_
  cases c? with
  | none => rfl
  | some c =>
    dsimp only
    rw [resolve_barred]
    refine resolve_elsewhere hu fun target hh => ?_
    cases hw : restoringWrite op c target.1 target.2 with
    | none => rfl
    | some w =>
      exact congrArg (fun a => discard a >>= _) (keyWrite_barred e hh (restoringWrite_key hw))

theorem serviceWrite_key {op : ServiceOperation} {w : Write} (h : serviceWrite op = .ok w) :
    w.key? = none := by
  unfold serviceWrite at h
  split at h
  case h_5 => split at h <;> cases h; rfl
  all_goals cases h; rfl

theorem runService_barred (e : Engine μ) (slot : Slot) (op : ServiceOperation) :
    (e.through e.mutator.barred).runService slot op = e.runService slot op := by
  unfold runService
  refine bind_congr fun snapshot => ?_
  dsimp only
  split
  · rfl
  · refine bind_congr fun _ => Act.bind_congr_ok fun s w t hr => ?_
    rw [plainWrite_barred e (serviceWrite_key (Prod.mk.inj hr).1)]

theorem stateWrite_key {service : Datum} {before : Option RunState} {current : RunState}
    {w : Write} (h : stateWrite service before current = some w) : w.key? = none := by
  unfold stateWrite at h
  split at h
  · cases h; rfl
  · split at h <;> cases h; rfl

theorem restoreService_barred (e : Engine μ) (slot : Slot) (op : ServiceOperation) :
    (e.through e.mutator.barred).restoreService slot op = e.restoreService slot op := by
  unfold restoreService
  refine bind_congr fun c? => ?_
  cases c? with
  | none => rfl
  | some c =>
    dsimp only
    rw [plainWrite_barred e (w := .setStartup op.service c.startup) rfl]
    split
    case' isTrue => refine bind_congr fun _ => ?_
    -- with or without the start type, the state comes next
    all_goals
      refine bind_congr fun current => ?_
      cases hw : stateWrite op.service c.state current.state with
      | none => rfl
      | some w =>
        exact congrArg (fun a => discard a >>= _) (plainWrite_barred e (stateWrite_key hw))

theorem runFile_barred (e : Engine μ) (slot : Slot) (op : FileOperation) :
    (e.through e.mutator.barred).runFile slot op = e.runFile slot op := by
  unfold runFile
  cases op.action <;> rfl

/-! ### Calls -/

theorem runSteps_barred (hu : e.targetUser.truthy = true) (tweakId : String) (side : Side)
    (ops : OperationSet) :
    (e.through e.mutator.barred).runSteps tweakId side ops = e.runSteps tweakId side ops := by
  have hregistry : (e.through e.mutator.barred).runRegistry = e.runRegistry :=
    funext₂ (runRegistry_barred hu)
  have hservices : (e.through e.mutator.barred).runService = e.runService :=
    funext₂ (runService_barred e)
  have hfiles : (e.through e.mutator.barred).runFile = e.runFile := funext₂ (runFile_barred e)
  unfold runSteps
  rw [hregistry, hservices, hfiles]
  rfl

theorem restoreSteps_barred (hu : e.targetUser.truthy = true) (tweakId : String)
    (ops : OperationSet) :
    (e.through e.mutator.barred).restoreSteps tweakId ops = e.restoreSteps tweakId ops := by
  have hregistry : (e.through e.mutator.barred).restoreRegistry = e.restoreRegistry :=
    funext₂ (restoreRegistry_barred hu)
  have hservices : (e.through e.mutator.barred).restoreService = e.restoreService :=
    funext₂ (restoreService_barred e)
  unfold restoreSteps
  rw [hregistry, hservices]
  rfl

/-- **Requests about the hive of the running user do not matter**: with a target user, a mutator
that refuses them all cannot be told from the one that answers them. -/
theorem call_barred (hu : e.targetUser.truthy = true) (action : Action) (test : Session μ → Bool)
    (t : Tweak) : (e.through e.mutator.barred).call action test t = e.call action test t := by
  have hrevert : (e.through e.mutator.barred).revertSteps t = e.revertSteps t := by
    unfold revertSteps
    simp only [runSteps_barred hu, restoreSteps_barred hu]
  cases action with
  | apply =>
    unfold call apply
    dsimp only
    rw [runSteps_barred hu]
    rfl
  | revert =>
    unfold call revert
    dsimp only
    rw [hrevert]
    rfl

end Engine
end TweakEngine
