/-
# What calls are woven of

Running and restoring operations, applying and reverting do nothing by themselves: they put
together requests to the mutator, captures, messages, and what is done with snapshots.
`Act.Woven Basic a` says that `a` is put together from basic actions, and `apply_woven` and
`revert_woven` say so of the calls.  What all basic actions go along, the calls go along
(`Act.Woven.along`), and where no basic action looks the calls do not look either
(`Act.Woven.dependsOn`).
-/

import TweakEngine.Proofs.TweakCalls

namespace TweakEngine

/-! ## Actions woven of others -/

namespace Act

/-- The action is put together from basic actions and from results. -/
inductive Woven {σ : Type} (Basic : (α : Type) → Act σ α → Prop) : {α : Type} → Act σ α → Prop
  | basic {α : Type} {a : Act σ α} (h : Basic α a) : Woven Basic a
  | result {α : Type} (r : Except Failure α) : Woven Basic (Act.result r)
  | bind {α β : Type} {a : Act σ α} {k : α → Act σ β} (ha : Woven Basic a)
      (hk : ∀ x, Woven Basic (k x)) : Woven Basic (a >>= k)
  | attempt {α : Type} {a : Act σ α} (h : Woven Basic a) : Woven Basic a.attempt

namespace Woven

variable {σ : Type} {Basic More : (α : Type) → Act σ α → Prop} {α β : Type} {a : Act σ α}

theorem pure (x : α) : Woven Basic (Pure.pure x : Act σ α) := result (.ok x)

theorem throw (f : Failure) : Woven Basic (MonadExcept.throw f : Act σ α) := result (.error f)

/-- After a failure nothing comes. -/
theorem throw_bind (f : Failure) (k : α → Act σ β) :
    Woven Basic ((MonadExcept.throw f : Act σ α) >>= k) := result (.error f)

/-- A known result is used, or nothing comes after it. -/
theorem result_bind {r : Except Failure α} {k : α → Act σ β}
    (h : ∀ x, r = .ok x → Woven Basic (k x)) : Woven Basic (Act.result r >>= k) := by
  cases r with
  | error f => exact result (.error f)
  | ok x => exact h x rfl

theorem discard (h : Woven Basic a) : Woven Basic (Functor.discard a) := by
  rw [Functor.discard, map_const, Function.comp_apply, ← bind_pure_comp]
  exact h.bind fun _ => .pure _

theorem rescue (h : Woven Basic a) (caught : Failure → Bool) : Woven Basic (a.rescue caught) := by
  refine h.attempt.bind fun r => ?_
  cases r with
  | ok x => exact .pure _
  | error f =>
    dsimp only
    split
    · exact .pure _
    · exact .throw f

/-- What is woven of some basic actions is woven of more. -/
theorem mono (h : Woven Basic a) (hmore : ∀ {α} {a : Act σ α}, Basic α a → Woven More a) :
    Woven More a := by
  induction h with
  | basic h => exact hmore h
  | result r => exact .result r
  | bind _ _ iha ihk => exact iha.bind ihk
  | attempt _ ih => exact ih.attempt

/-- What all basic actions go along is gone along by what is woven of them. -/
theorem along {Q : σ → σ → Prop} (hrefl : ∀ s, Q s s) (htrans : ∀ {s t u}, Q s t → Q t u → Q s u)
    (hbasic : ∀ {α} {a : Act σ α}, Basic α a → a.Along Q) (h : Woven Basic a) : a.Along Q := by
  induction h with
  | basic h => exact hbasic h
  | result r => exact hrefl
  | bind _ _ iha ihk => exact Along.bind (Q := Q) htrans iha ihk
  | attempt _ ih => exact ih

/-- Where no basic action looks, what is woven of them does not look. -/
theorem dependsOn {γ : Type} {f : σ → γ}
    (hbasic : ∀ {α} {a : Act σ α}, Basic α a → a.DependsOn f) (h : Woven Basic a) :
    a.DependsOn f := by
  induction h with
  | basic h => exact hbasic h
  | result r => exact .result r
  | bind _ _ iha ihk => exact .bind iha ihk
  | attempt _ ih => exact ih.attempt

end Woven
end Act

open Session

variable {μ : Type}

/-! ## Operations -/

/-- A sequence on the host is a sequence in the session. -/
theorem Session.onHost_bind {α β : Type} (a : Call μ α) (k : α → Call μ β) :
    (onHost (a >>= k) : Work μ β) = onHost a >>= fun x => onHost (k x) := by
  funext s
  show (onHost (a >>= k)).on s = (onHost a >>= fun x => onHost (k x)).on s
  rw [Act.on_bind, onHost, onHost, Part.on_lift, Part.on_lift, Act.on_bind]
  rcases a.on (hostPart.get s) with ⟨f | x, h⟩ <;> rfl

/-- A request to a mutator. -/
inductive Mutator.Asks (m : Mutator μ) : (α : Type) → Call μ α → Prop
  | readValue (hive : Hive) (path name : Datum) : Asks m Reading (m.readValue hive path name)
  | keyExists (hive : Hive) (path : Datum) : Asks m Bool (m.keyExists hive path)
  | queryService (service : Datum) : Asks m ServiceSnapshot (m.queryService service)
  | pathExists (path : Datum) : Asks m Bool (m.pathExists path)
  | readText (path : Datum) : Asks m Datum (m.readText path)
  | write (w : Write) : Asks m w.Reply (m.write w)

/-- What operations consist of: requests, what is remembered, and messages. -/
inductive Mutator.Basic (m : Mutator μ) : (α : Type) → Work μ α → Prop
  | request {α : Type} {a : Call μ α} (h : m.Asks α a) : Basic m α (onHost a)
  | memory {α : Type} (a : Act Memory α) : Basic m α (memoryPart.lift a)
  | report (x : Message) : Basic m Unit (onHost (Host.report x))

namespace Engine

variable {e : Engine μ} {slot : Slot} {α : Type}

/-- An action is put together as operations are. -/
abbrev Operates (e : Engine μ) {α : Type} (a : Work μ α) : Prop :=
  Act.Woven e.mutator.Basic a

namespace Operates

open Act (Woven)

theorem ask {a : Call μ α} (h : e.mutator.Asks α a) : e.Operates (onHost a) := .basic (.request h)

theorem write (e : Engine μ) (w : Write) : e.Operates (e.write w) := ask (.write w)

theorem memory (e : Engine μ) (a : Act Memory α) : e.Operates (memoryPart.lift a) :=
  .basic (.memory a)

theorem say (e : Engine μ) (level : Level) (speaker text : String) :
    e.Operates (Session.say level speaker text) := .basic (.report _)

/-- What is remembered of the registry, of services or of files is part of what is remembered. -/
theorem registry (e : Engine μ) (a : Act (Captures RegistryCapture) α) :
    e.Operates (registryPart.lift a) := memory e (Memory.registryPart.lift a)

theorem services (e : Engine μ) (a : Act (Captures ServiceCapture) α) :
    e.Operates (servicesPart.lift a) := memory e (Memory.servicesPart.lift a)

theorem files (e : Engine μ) (a : Act (Captures FileCapture) α) :
    e.Operates (filesPart.lift a) := memory e (Memory.filesPart.lift a)

theorem resolve (e : Engine μ) (hive : Hive) (path : Datum) :
    e.Operates (onHost (e.resolve hive path)) := by
  unfold Engine.resolve
  split
  · exact .pure _
  · rw [onHost_bind]
    refine Woven.bind (ask (.keyExists .users e.targetUser)) fun there => ?_
    cases there with
    | false => exact .throw _
    | true => exact .pure _

theorem runKey (hive : Hive) (path : Datum) (create : Bool) :
    e.Operates (e.runKey slot hive path create) := by
  unfold Engine.runKey
  refine (ask (.keyExists _ _)).bind fun existed => (registry e _).discard.bind fun _ => ?_
  split
  · exact (write e _).discard.bind fun _ => .pure _
  · refine (write e _).bind fun removed => ?_
    split <;> exact .pure _

theorem captureValue (hive : Hive) (path name : Datum) :
    e.Operates (e.captureValue slot hive path name) :=
  (ask (.readValue _ _ _)).bind fun _ => (registry e _).discard

theorem runRegistry (op : RegistryOperation) : e.Operates (e.runRegistry slot op) := by
  unfold Engine.runRegistry
  refine (resolve e _ _).bind fun place => ?_
  obtain ⟨hive, path⟩ := place
  cases op.action with
  | createKey | deleteKey => exact runKey _ _ _
  | setValue =>
    refine (captureValue _ _ _).bind fun _ => (Woven.result _).bind fun value? => ?_
    cases value? with
    | none => exact .throw _
    | some value => exact (write e _).bind fun _ => .pure _
  | deleteValue =>
    refine (captureValue _ _ _).bind fun _ => (write e _).bind fun removed => ?_
    cases removed <;> exact .pure _

theorem restoreRegistry (op : RegistryOperation) : e.Operates (e.restoreRegistry slot op) := by
  unfold Engine.restoreRegistry
  refine (registry e _).bind fun c? => ?_
  cases c? with
  | none => exact .pure _
  | some c =>
    refine (resolve e _ _).bind fun place => ?_
    obtain ⟨hive, path⟩ := place
    dsimp only
    split
    · exact (write e _).discard.bind fun _ => (registry e _).bind fun _ => .pure _
    · exact (registry e _).bind fun _ => .pure _

theorem runService (op : ServiceOperation) : e.Operates (e.runService slot op) := by
  unfold Engine.runService
  refine (ask (.queryService _)).bind fun snapshot => ?_
  dsimp only
  split
  · exact .throw_bind _ _
  · exact (services e _).discard.bind fun _ => (Woven.result _).bind fun w =>
      (write e w).discard.bind fun _ => .pure _

theorem restoreService (op : ServiceOperation) : e.Operates (e.restoreService slot op) := by
  unfold Engine.restoreService
  refine (services e _).bind fun c? => ?_
  cases c? with
  | none => exact .pure _
  | some c =>
    dsimp only
    split
    case' isTrue => refine (write e _).bind fun _ => ?_
    -- with or without the start type, the state comes next
    all_goals
      refine (ask (.queryService _)).bind fun current => ?_
      split
      · exact (write e _).discard.bind fun _ => (services e _).bind fun _ => .pure _
      · exact (services e _).bind fun _ => .pure _

theorem runText (op : ScriptOperation) (script : Datum) : e.Operates (e.runText op script) := by
  unfold Engine.runText
  refine (Woven.result _).bind fun text => ?_
  dsimp only
  split
  · exact .throw_bind _ _
  split
  -- an elevated script is announced first
  on_goal 1 => refine (say e _ _ _).bind fun _ => ?_
  all_goals
    refine (write e _).bind fun outcome => ?_
    split
    · exact .throw_bind _ _
    split
    · refine (Woven.result _).bind fun stderr => ?_
      split
      · exact (Woven.pure _).bind fun _ => .throw_bind _ _
      · exact (Woven.result _).bind fun _ => .throw_bind _ _
    · exact .pure _

theorem revertScript (op : ScriptOperation) : e.Operates (e.revertScript op) := by
  unfold Engine.revertScript
  split
  · exact .pure _
  · exact runText op _

theorem captureFile (op : FileOperation) : e.Operates (e.captureFile slot op) := by
  unfold Engine.captureFile
  refine (ask (.pathExists _)).bind fun existed => ?_
  dsimp only
  split
  · exact (ask (.readText _)).bind fun content => (files e _).bind fun _ => .pure _
  · exact (Woven.pure _).bind fun content => (files e _).bind fun _ => .pure _

theorem runTransfer (op : FileOperation) (w : Write) : e.Operates (e.runTransfer slot op w) := by
  unfold Engine.runTransfer
  dsimp only
  split
  · exact .throw_bind _ _
  · exact (ask (.pathExists _)).bind fun _ => (files e _).discard.bind fun _ =>
      (write e w).discard.bind fun _ => .pure _

theorem runFile (op : FileOperation) : e.Operates (e.runFile slot op) := by
  unfold Engine.runFile
  cases op.action with
  | setAttributes | takeOwnership => exact .throw _
  | rename | copy => exact runTransfer op _
  | createDirectory | createFile =>
    exact (captureFile op).discard.bind fun _ => (write e _).bind fun _ => .pure _
  | delete =>
    refine (captureFile op).bind fun captured => ?_
    dsimp only
    split
    · exact .pure _
    split
    · exact (write e _).bind fun _ => (write e _).bind fun _ => .pure _
    · exact (write e _).bind fun _ => .pure _

theorem undelete (op : FileOperation) (c : FileCapture) : e.Operates (e.undelete op c) := by
  unfold Engine.undelete
  dsimp only
  split
  on_goal 1 => refine (ask (.pathExists _)).bind fun existed => ?_
  on_goal 2 => refine (Woven.pure _).bind fun existed => ?_
  all_goals
    split
    · exact write e _
    split
    · split
      · exact .throw_bind _ _
      · exact write e _
    · exact .pure _

theorem undoFile (op : FileOperation) (c : FileCapture) : e.Operates (e.undoFile op c) := by
  have hunless : ∀ path, e.Operates (do
      if !c.existed then
        if ← onHost (e.mutator.pathExists path) then e.write (.deletePath path)) := fun path => by
    split
    · refine (ask (.pathExists _)).bind fun there => ?_
      split
      · exact write e _
      · exact .pure _
    · exact .pure _
  unfold Engine.undoFile
  cases op.action with
  | delete => exact undelete op c
  | setAttributes | takeOwnership => exact .pure _
  | createDirectory | copy => exact hunless _
  | createFile =>
    dsimp only
    split
    · exact write e _
    split
    · exact write e _
    · exact .pure _
  | rename =>
    refine (ask (.pathExists _)).bind fun there => ?_
    split
    · exact write e _
    · exact .pure _

theorem restoreFile (op : FileOperation) : e.Operates (e.restoreFile slot op) := by
  unfold Engine.restoreFile
  cases op.action with
  | setAttributes | takeOwnership => exact .pure _
  | _ =>
    refine (files e _).bind fun c? => ?_
    cases c? with
    | none => exact .pure _
    | some c => exact (undoFile op c).bind fun _ => (files e _).bind fun _ => .pure _

end Operates

/-- The steps that run operations. -/
theorem runSteps_operate {tweakId : String} {side : Side} {ops : OperationSet}
    {steps : List (Step μ)} (h : e.runSteps tweakId side ops = .ok steps) :
    ∀ st ∈ steps, e.Operates st.run :=
  forall_runSteps h (fun _ op _ => .runRegistry op) (fun _ op _ => .runService op)
    (fun op _ => .runText op _) fun _ op _ => .runFile op

/-- The steps that restore operations. -/
theorem restoreSteps_operate {tweakId : String} {ops : OperationSet} {steps : List (Step μ)}
    (h : e.restoreSteps tweakId ops = .ok steps) : ∀ st ∈ steps, e.Operates st.run :=
  forall_restoreSteps h (fun _ op _ => .restoreRegistry op) (fun _ op _ => .restoreService op)
    (fun op _ => .revertScript op) fun _ op _ => .restoreFile op

/-! ## Calls -/

/-- What calls consist of: the parts of operations, looking whether a tweak is applied, asking
whether to stop, the clock, the files around the machine, and the open store. -/
inductive Basic (e : Engine μ) (test : Session μ → Bool) : (α : Type) → Work μ α → Prop
  | operation {α : Type} {a : Work μ α} (h : e.mutator.Basic α a) : Basic e test α a
  | look (t : Tweak) : Basic e test Bool (onHost (e.alreadyApplied t))
  | stop : Basic e test Bool (Act.view test)
  | now : Basic e test Moment (onHost Host.now)
  | disk {α : Type} (a : Act Disk α) : Basic e test α (onHost (Host.onDisk a))
  | opened : Basic e test (Option Snapshot.Store) openStore?
  | putStore (st : Snapshot.Store) : Basic e test Unit (Session.putStore st)

/-- An action is put together as calls are. -/
abbrev Calls (e : Engine μ) (test : Session μ → Bool) {α : Type} (a : Work μ α) : Prop :=
  Act.Woven (e.Basic test) a

namespace Calls

open Act (Woven)

variable {test : Session μ → Bool} {t : Tweak}

theorem operation {a : Work μ α} (h : e.Operates a) : e.Calls test a :=
  h.mono fun h => .basic (.operation h)

theorem say (level : Level) (speaker text : String) :
    e.Calls test (Session.say level speaker text) := operation (.say e _ _ _)

theorem disk (a : Act Disk α) : e.Calls test (onHost (Host.onDisk a)) := .basic (.disk a)

theorem runStep {st : Step μ} (h : e.Operates st.run) (r : Result) :
    e.Calls test (Engine.runStep st r) := by
  unfold Engine.runStep
  refine (operation h).attempt.bind fun outcome => ?_
  split
  · exact (say _ _ _).bind fun _ => .pure _
  · exact .pure _
  · split
    · exact (say _ _ _).bind fun _ => .pure _
    · exact .pure _

theorem execute {steps : List (Step μ)} (h : ∀ st ∈ steps, e.Operates st.run) (r : Result) :
    e.Calls test (Engine.execute test steps r) := by
  induction steps generalizing r with
  | nil => exact .pure _
  | cons st steps ih =>
    unfold Engine.execute
    refine Woven.bind (.basic .stop) fun stopped => ?_
    split
    · exact (say _ _ _).bind fun _ => .pure _
    · refine (runStep (h st List.mem_cons_self) r).bind fun x => ?_
      obtain ⟨r, f?⟩ := x
      cases f? with
      | none => exact ih (fun st hst => h st (List.mem_cons_of_mem _ hst)) r
      | some f => exact Woven.bind (operation (.basic (.report _))) fun _ => .pure _

theorem withStore {caught : Failure → Bool} {what id : String}
    {action : Snapshot.Store → Work μ Unit} (h : ∀ store, e.Calls test (action store)) :
    e.Calls test (Engine.withStore caught what id action) := by
  unfold Engine.withStore
  refine Woven.bind (.basic .opened) fun store? => ?_
  cases store? with
  | none => exact .pure _
  | some store =>
    refine ((h store).rescue caught).bind fun r => ?_
    cases r with
    | ok => exact .pure _
    | error f => exact say _ _ _

theorem saveSnapshot (t : Tweak) : e.Calls test (Engine.saveSnapshot t) := by
  refine withStore fun store => .discard ?_
  unfold Snapshot.save
  refine Woven.bind (.basic .now) fun now => ?_
  have hview : (Act.view fun s : Session μ => Snapshot.Store.snapshotOf t s.memory now) =
      memoryPart.lift (Act.view fun m => Snapshot.Store.snapshotOf t m now) := rfl
  rw [hview]
  refine (operation (.memory e _)).bind fun x => ?_
  obtain ⟨snapshot, count⟩ := x
  dsimp only
  split
  · exact (say _ _ _).bind fun _ => .pure _
  · exact (disk _).bind fun _ => Woven.bind (.basic (.putStore _)) fun _ => (disk _).bind fun _ =>
      (say _ _ _).bind fun _ => .pure _

theorem loadSnapshot (t : Tweak) : e.Calls test (Engine.loadSnapshot t) := by
  unfold Engine.loadSnapshot
  refine (operation (.memory e _)).bind fun covered => ?_
  split
  · exact .pure _
  refine withStore fun store => .discard ?_
  unfold Snapshot.load
  split
  · exact (say _ _ _).bind fun _ => .pure _
  · refine (Woven.result _).bind fun file => (disk _).bind fun there => ?_
    split
    · exact (say _ _ _).bind fun _ => .pure _
    · exact (disk _).bind fun snapshot => (operation (.memory e _)).bind fun _ =>
        (say _ _ _).bind fun _ => .pure _

theorem deleteSnapshot (t : Tweak) : e.Calls test (Engine.deleteSnapshot t) := by
  refine withStore fun store => .discard ?_
  unfold Snapshot.delete
  dsimp only
  split
  · exact .pure _
  · refine Woven.bind (.basic (.putStore _)) fun _ => (Woven.result _).bind fun file =>
      (disk _).bind fun there => ?_
    split
    on_goal 1 => refine (disk _).bind fun _ => ?_
    all_goals
      exact (disk _).bind fun _ => (say _ _ _).bind fun _ => .pure _

theorem finish (action : String) (start : Moment) (details : String) (r : Result) :
    e.Calls test (Engine.finish action t start details r) := by
  unfold Engine.finish Host.millisSince
  rw [onHost_bind]
  exact (Woven.bind (.basic .now) fun _ => .pure _).bind fun _ =>
    (operation (.basic (.report _))).bind fun _ => .pure _

theorem refuse (action : String) (start : Moment) (f : Failure) :
    e.Calls test (Engine.refuse action t start f) := (say _ _ _).bind fun _ => finish _ _ _ _

/-- **Applying** is put together of these parts. -/
theorem apply (t : Tweak) : e.Calls test (e.apply test t) := by
  unfold Engine.apply
  refine Woven.bind (.basic .now) fun start => Woven.bind (.basic (.look t)) fun found => ?_
  dsimp only
  split
  · exact finish _ _ _ _
  split
  · exact refuse _ _ _
  · refine (say _ _ _).bind fun _ => (loadSnapshot t).bind fun _ => .result_bind fun steps hsteps =>
      (execute (runSteps_operate hsteps) _).bind fun r => (saveSnapshot t).bind fun _ =>
        finish _ _ _ _

/-- **Reverting** is put together of these parts. -/
theorem revert (t : Tweak) : e.Calls test (e.revert test t) := by
  have hrest : ∀ {steps : List (Step μ)} (start : Moment), (∀ st ∈ steps, e.Operates st.run) →
      e.Calls test (do
        let r ← Engine.execute test steps { success := true, tweakId := t.id }
        if r.clean then Engine.deleteSnapshot t
        let r := { r with requiresRestart := r.success && t.requiresRestart }
        Engine.finish "REVERT" t start r.summary r) := fun start h => by
    refine (execute h _).bind fun r => ?_
    dsimp only
    split
    · exact (deleteSnapshot t).bind fun _ => finish _ _ _ _
    · exact finish _ _ _ _
  unfold Engine.revert Engine.revertSteps
  refine Woven.bind (.basic .now) fun start => ?_
  dsimp only
  split
  · exact refuse _ _ _
  split
  · exact refuse _ _ _
  cases t.undo? with
  | some ops =>
    simp only [bind_assoc]
    exact (say _ _ _).bind fun _ => .result_bind fun steps hsteps =>
      hrest start (runSteps_operate hsteps)
  | none =>
    simp only [bind_assoc]
    exact (say _ _ _).bind fun _ => (loadSnapshot t).bind fun _ => .result_bind fun steps hsteps =>
      hrest start (restoreSteps_operate hsteps)

end Calls

end Engine
end TweakEngine
