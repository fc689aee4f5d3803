/-
# Captures that have a form in JSON

A value that was read from JSON can be written as JSON again (`Json.read_plain`), and so can
the text of a file.  These are all that a session ever notes of files: along every step of a
run the store stays the same and the notes of files stay writable (`Session.Onward`).  The
steps may do to the machine what they like; a run of them always gives a result
(`Engine.execute_onward`).
-/

import TweakEngine.Proofs.CaptureForms
import TweakEngine.Proofs.Files
import TweakEngine.Proofs.StepRuns

namespace TweakEngine

namespace Json

/-! ## What is read can be written -/

theorem foreignItem?_eq_none : ∀ {ds : List Datum},
    foreignItem? ds = none ↔ ∀ d ∈ ds, foreign? d = none
  | [] => by simp [foreignItem?]
  | d :: ds => by rw [foreignItem?, Option.or_eq_none_iff, foreignItem?_eq_none]; simp

theorem foreignField?_eq_none : ∀ {fs : List (String × Datum)},
    foreignField? fs = none ↔ ∀ f ∈ fs, foreign? f.2 = none
  | [] => by simp [foreignField?]
  | (key, d) :: fs => by rw [foreignField?, Option.or_eq_none_iff, foreignField?_eq_none]; simp

theorem scalar_plain {p : Nat} {cs : List Char} {r : Rest Datum} (h : scalar p cs = .ok r) :
    foreign? r.1 = none := by
  have hwords : ∀ w ∈ words, foreign? w.2 = none := by
    simp only [words, List.forall_mem_cons]
    exact ⟨rfl, rfl, rfl, rfl, rfl, rfl, List.forall_mem_nil _⟩
  unfold scalar at h
  split at h
  · next hw =>
    cases h
    exact hwords _ (List.mem_of_find?_eq_some hw)
  · unfold number at h
    dsimp only at h
    repeat' split at h
    all_goals cases h
    all_goals rfl

/-- What the three readers of a depth give has a form in JSON. -/
structure Plain (fuel : Nat) : Prop where
  value : ∀ {p cs r}, value fuel p cs = .ok r → foreign? r.1 = none
  items : ∀ {p cs r}, items fuel p cs = .ok r → foreignItem? r.1 = none
  fields : ∀ {acc p cs r}, foreignField? acc = none → fields fuel acc p cs = .ok r →
    foreignField? r.1 = none

section

variable {fuel p : Nat} {cs : List Char}

theorem Plain.value_succ (ih : Plain fuel) {r : Rest Datum} (h : Json.value (fuel + 1) p cs = .ok r) :
    foreign? r.1 = none := by
  unfold Json.value at h
  split at h
  · cases h
  · cases h
  · obtain ⟨_, _, h⟩ := ok_of_bind h
    cases h
    rfl
  · next e =>
    cases e
    split at h
    · cases h
      rfl
    · obtain ⟨_, hx, h⟩ := ok_of_bind h
      cases h
      exact ih.items hx
  · next e =>
    cases e
    split at h
    · cases h
      rfl
    · obtain ⟨_, hx, h⟩ := ok_of_bind h
      cases h
      exact ih.fields rfl hx
  · exact scalar_plain h

theorem Plain.items_succ (ih : Plain fuel) {r : Rest (List Datum)}
    (h : Json.items (fuel + 1) p cs = .ok r) : foreignItem? r.1 = none := by
  unfold Json.items at h
  obtain ⟨⟨item, p₁, cs₁⟩, hx, h⟩ := ok_of_bind h
  have hitem := ih.value hx
  dsimp only at h
  split at h
  · cases h
    exact foreignItem?_eq_none.mpr fun d hd => by cases List.mem_singleton.mp hd; exact hitem
  · obtain ⟨⟨rest, p₂, cs₂⟩, hrest, h⟩ := ok_of_bind h
    cases h
    exact foreignItem?_eq_none.mpr (List.forall_mem_cons.mpr
      ⟨hitem, foreignItem?_eq_none.mp (ih.items hrest)⟩)
  · cases h

theorem Plain.fields_succ (ih : Plain fuel) {acc : Assoc String Datum} {r : Rest (Assoc String Datum)}
    (hacc : foreignField? acc = none) (h : Json.fields (fuel + 1) acc p cs = .ok r) :
    foreignField? r.1 = none := by
  unfold Json.fields at h
  split at h
  · cases h
  · next acc _ _ _ _ _ _ _ e =>
    cases e
    obtain ⟨⟨key, p₁, cs₁⟩, -, h⟩ := ok_of_bind h
    dsimp only at h
    split at h
    · obtain ⟨⟨item, p₂, cs₂⟩, hx, h⟩ := ok_of_bind h
      have hput : foreignField? (Assoc.put key item acc) = none :=
        foreignField?_eq_none.mpr fun f hf => (Assoc.mem_put hf).elim
          (fun e => e ▸ ih.value hx) (foreignField?_eq_none.mp hacc f)
      dsimp only at h
      split at h
      · cases h
        exact hput
      · exact ih.fields hput h
      · cases h
    · cases h
  · cases h

end

/-- A value, the items of a list and the fields of an object as a text gives them. -/
theorem plain_of_fuel : ∀ fuel : Nat, Plain fuel
  | 0 => by
    refine ⟨fun h => ?_, fun h => ?_, fun _ h => ?_⟩
    · rw [Json.value] at h; cases h
    · rw [Json.items] at h; cases h
    · rw [Json.fields] at h; cases h
  | fuel + 1 =>
    have ih := plain_of_fuel fuel
    ⟨ih.value_succ, ih.items_succ, ih.fields_succ⟩

/-- A value that was read from JSON has a form in JSON. -/
theorem read_plain {s : String} {d : Datum} (h : read s = .ok d) : foreign? d = none := by
  unfold read at h
  dsimp only at h
  split at h
  · cases h
  split at h
  · cases h
  · cases h
  · next hv =>
    split at h
    · cases h
      exact (plain_of_fuel _).value hv
    · cases h

end Json

/-- The value in a file has a form in JSON. -/
theorem Disk.readJson_plain {p : Path} {disk : Disk} {d : Datum}
    (h : ((readJson p).on disk).1 = .ok d) : Json.foreign? d = none := by
  obtain ⟨text, disk', -, h⟩ := Act.ok_of_on_bind (Prod.ext h rfl)
  exact Json.read_plain (Prod.mk.inj h).1

/-! ## Along the steps of a run -/

/-- Everything that is captured of files has a form in JSON. -/
def Captures.Writable (c : Captures FileCapture) : Prop :=
  ∀ slot x, Assoc.get? slot c = some x → Json.foreign? x.content = none

theorem Captures.Writable.keep {c : Captures FileCapture} (h : c.Writable) {x : FileCapture}
    (hx : Json.foreign? x.content = none) (slot : Slot) : (c.keep slot x).1.Writable := by
  intro slot' y hy
  rw [Captures.get?_keep] at hy
  split at hy
  · cases hold : Assoc.get? slot c with
    | none => rw [hold] at hy; cases hy; exact hx
    | some z => rw [hold] at hy; cases hy; exact h slot z hold
  · exact h slot' y hy

theorem Captures.Writable.erase {c : Captures FileCapture} (h : c.Writable) (slot : Slot) :
    Captures.Writable (Assoc.erase slot c) := by
  intro slot' y hy
  rw [Assoc.get?_erase] at hy
  split at hy
  · cases hy
  · exact h slot' y hy

/-- The notes of files can be written. -/
def Memory.Writable (m : Memory) : Prop := m.files.Writable

/-- The store has stayed the same, and the notes of files have stayed writable. -/
structure Session.Onward {μ : Type} (s s' : Session μ) : Prop where
  store : s'.store = s.store
  writable : s.memory.Writable → s'.memory.Writable

/-- What the mutator reads from files has a form in JSON, as texts have. -/
def Mutator.ReadsPlain {μ : Type} (m : Mutator μ) : Prop :=
  ∀ path h x h', (m.readText path).on h = (.ok x, h') → Json.foreign? x = none

variable {μ : Type}

theorem Session.Onward.refl (s : Session μ) : s.Onward s := ⟨rfl, id⟩

theorem Session.Onward.trans {s s' s'' : Session μ} (h : s.Onward s') (h' : s'.Onward s'') :
    s.Onward s'' := ⟨h'.store.trans h.store, h'.writable ∘ h.writable⟩

namespace Engine

open Session

/-- Whatever comes of the action, it only leads onward. -/
abbrev GoesOnward {α : Type} (a : Work μ α) : Prop := a.Along Session.Onward

namespace GoesOnward

variable {α β : Type} {e : Engine μ} {slot : Slot}

theorem bind {a : Work μ α} {k : α → Work μ β} (ha : GoesOnward a) (hk : ∀ x, GoesOnward (k x)) :
    GoesOnward (a >>= k) := Act.Along.bind (Q := Session.Onward) .trans ha hk

theorem bind_of {a : Work μ α} {k : α → Work μ β} {P : α → Prop} (ha : GoesOnward a)
    (hP : ∀ s x s', a.on s = (.ok x, s') → P x) (hk : ∀ x, P x → GoesOnward (k x)) :
    GoesOnward (a >>= k) := Act.Along.bind_of (Q := Session.Onward) .trans ha hP hk

theorem pure (x : α) : GoesOnward (Pure.pure x : Work μ α) := .refl

theorem throw (f : Failure) : GoesOnward (MonadExcept.throw f : Work μ α) := .refl

theorem throw_bind (f : Failure) (k : α → Work μ β) :
    GoesOnward (MonadExcept.throw f >>= k : Work μ β) := .refl

theorem result (r : Except Failure α) : GoesOnward (Act.result r : Work μ α) := .refl

theorem discard {a : Work μ α} (ha : GoesOnward a) : GoesOnward (discard a) := by
  intro s
  rw [Act.on_discard]
  exact ha s

theorem onHost (a : Call μ α) : GoesOnward (Session.onHost a) := fun _ => ⟨rfl, id⟩

theorem write (e : Engine μ) (w : Write) : GoesOnward (e.write w) := onHost _

theorem say (level : Level) (speaker text : String) :
    GoesOnward (Session.say level speaker text : Work μ Unit) := onHost _

/-- An action on the captures of the registry. -/
theorem registry (a : Act (Captures RegistryCapture) α) :
    GoesOnward (registryPart.lift a : Work μ α) := fun _ => ⟨rfl, id⟩

/-- An action on the captures of services. -/
theorem services (a : Act (Captures ServiceCapture) α) :
    GoesOnward (servicesPart.lift a : Work μ α) := fun _ => ⟨rfl, id⟩

theorem captured (slot : Slot) : GoesOnward (captured? filesPart slot : Work μ _) :=
  fun _ => ⟨rfl, id⟩

theorem capture (slot : Slot) {c : FileCapture} (hc : Json.foreign? c.content = none) :
    GoesOnward (Session.capture filesPart slot c : Work μ Bool) :=
  fun _ => ⟨rfl, fun hs => hs.keep hc slot⟩

theorem release (slot : Slot) : GoesOnward (Session.release filesPart slot : Work μ Unit) :=
  fun _ => ⟨rfl, fun hs => hs.erase slot⟩

/-! ### Registry and services -/

theorem runKey (slot : Slot) (hive : Hive) (keyPath : Datum) (create : Bool) :
    GoesOnward (e.runKey slot hive keyPath create) := by
  unfold Engine.runKey
  refine (onHost _).bind fun existed => (registry _).discard.bind fun _ => ?_
  split
  · exact (write e _).discard.bind fun _ => pure _
  · refine (write e _).bind fun gone => ?_
    split <;> exact pure _

theorem captureValue (slot : Slot) (hive : Hive) (keyPath name : Datum) :
    GoesOnward (e.captureValue slot hive keyPath name) :=
  (onHost _).bind fun _ => (registry _).discard

theorem runRegistry (slot : Slot) (op : RegistryOperation) : GoesOnward (e.runRegistry slot op) := by
  unfold Engine.runRegistry
  refine (onHost _).bind fun (hive, keyPath) => ?_
  dsimp only
  cases op.action with
  | createKey | deleteKey => exact runKey slot _ _ _
  | setValue =>
    refine (captureValue slot _ _ _).bind fun _ => (result _).bind fun value? => ?_
    cases value? with
    | none => exact throw _
    | some value => exact (write e _).bind fun _ => pure _
  | deleteValue =>
    refine (captureValue slot _ _ _).bind fun _ => (write e _).bind fun gone => ?_
    split <;> exact pure _

theorem restoreRegistry (slot : Slot) (op : RegistryOperation) :
    GoesOnward (e.restoreRegistry slot op) := by
  unfold Engine.restoreRegistry
  refine (registry _).bind fun c? => ?_
  cases c? with
  | none => exact pure _
  | some c =>
    refine (onHost _).bind fun (hive, keyPath) => ?_
    dsimp only
    split
    · exact (write e _).discard.bind fun _ => (registry _).bind fun _ => pure _
    · exact (registry _).bind fun _ => pure _

theorem runService (slot : Slot) (op : ServiceOperation) : GoesOnward (e.runService slot op) := by
  unfold Engine.runService
  refine (onHost _).bind fun snapshot => ?_
  dsimp only
  split
  · exact throw_bind _ _
  · exact (services _).discard.bind fun _ => (result _).bind fun w =>
      (write e w).discard.bind fun _ => pure _

theorem restoreService (slot : Slot) (op : ServiceOperation) :
    GoesOnward (e.restoreService slot op) := by
  unfold Engine.restoreService
  refine (services _).bind fun c? => ?_
  cases c? with
  | none => exact pure _
  | some c =>
    dsimp only
    split
    case' isTrue => refine (write e _).bind fun _ => ?_
    -- with or without the start type, the state comes next
    all_goals
      refine (onHost _).bind fun current => ?_
      split
      · exact (write e _).discard.bind fun _ => (services _).bind fun _ => pure _
      · exact (services _).bind fun _ => pure _

/-! ### Scripts and files -/

theorem runText (op : ScriptOperation) (script : Datum) : GoesOnward (e.runText op script) := by
  unfold Engine.runText
  refine (result _).bind fun text => ?_
  dsimp only
  split
  · exact throw_bind _ _
  split
  on_goal 1 => refine (say _ _ _).bind fun _ => ?_
  all_goals
    refine (write e _).bind fun x => ?_
    split
    · exact throw_bind _ _
    split
    · refine (result _).bind fun stderr => ?_
      split
      · exact (pure _).bind fun _ => throw_bind _ _
      · exact (result _).bind fun _ => throw_bind _ _
    · exact pure _

theorem revertScript (op : ScriptOperation) : GoesOnward (e.revertScript op) := by
  unfold Engine.revertScript
  split
  · exact pure _
  · exact runText op _

theorem captureFile (he : e.mutator.ReadsPlain) (slot : Slot) (op : FileOperation) :
    GoesOnward (e.captureFile slot op) := by
  unfold Engine.captureFile
  refine (onHost _).bind fun existed => ?_
  dsimp only
  split
  · refine bind_of (P := fun content => Json.foreign? content = none) (onHost _)
      (fun s content s' h => ?_) fun content hc =>
        (capture slot (c := ⟨existed, content⟩) hc).bind fun _ => pure _
    obtain ⟨h', hread, -⟩ := Part.ok_of_on_lift h
    exact he _ _ _ _ hread
  · exact (capture slot (c := ⟨existed, .null⟩) rfl).bind fun _ => pure _

theorem runTransfer (slot : Slot) (op : FileOperation) (w : Write) :
    GoesOnward (e.runTransfer slot op w) := by
  unfold Engine.runTransfer
  dsimp only
  split
  · exact throw_bind _ _
  · exact (onHost _).bind fun existed => (capture slot (c := ⟨existed, .null⟩) rfl).discard.bind
      fun _ => (write e w).discard.bind fun _ => pure _

theorem runFile (he : e.mutator.ReadsPlain) (slot : Slot) (op : FileOperation) :
    GoesOnward (e.runFile slot op) := by
  unfold Engine.runFile
  cases op.action with
  | setAttributes | takeOwnership => exact throw _
  | rename | copy => exact runTransfer slot op _
  | createDirectory | createFile =>
    exact (captureFile he slot op).discard.bind fun _ => (write e _).bind fun _ => pure _
  | delete =>
    refine (captureFile he slot op).bind fun (existed, kept) => ?_
    dsimp only
    split
    · exact pure _
    split
    · exact (write e _).bind fun _ => (write e _).bind fun _ => pure _
    · exact (write e _).bind fun _ => pure _

theorem undelete (op : FileOperation) (c : FileCapture) : GoesOnward (e.undelete op c) := by
  unfold Engine.undelete
  dsimp only
  split
  on_goal 1 => refine (onHost _).bind fun existed => ?_
  on_goal 2 => refine (pure _).bind fun existed => ?_
  all_goals
    split
    · exact write e _
    split
    · split
      · exact throw_bind _ _
      · exact write e _
    · exact pure _

theorem undoFile (op : FileOperation) (c : FileCapture) : GoesOnward (e.undoFile op c) := by
  have hunless : ∀ path, GoesOnward (do
      if !c.existed then
        if ← Session.onHost (e.mutator.pathExists path) then e.write (.deletePath path)) :=
    fun path => by
    split
    · refine (onHost _).bind fun there => ?_
      split
      · exact write e _
      · exact pure _
    · exact pure _
  unfold Engine.undoFile
  cases op.action with
  | delete => exact undelete op c
  | setAttributes | takeOwnership => exact pure _
  | createDirectory | copy => exact hunless _
  | createFile =>
    dsimp only
    split
    · exact write e _
    split
    · exact write e _
    · exact pure _
  | rename =>
    refine (onHost _).bind fun there => ?_
    split
    · exact write e _
    · exact pure _

theorem restoreFile (slot : Slot) (op : FileOperation) : GoesOnward (e.restoreFile slot op) := by
  unfold Engine.restoreFile
  cases op.action with
  | setAttributes | takeOwnership => exact pure _
  | _ =>
    refine (captured slot).bind fun c? => ?_
    cases c? with
    | none => exact pure _
    | some c => exact (undoFile op c).bind fun _ => (release slot).bind fun _ => pure _

end GoesOnward

/-! ## Along a run -/

variable {e : Engine μ} {t : Tweak} {steps : List (Step μ)} {tweakId : String}

/-- Every step that runs an operation leads onward. -/
theorem runSteps_onward (he : e.mutator.ReadsPlain) {side : Side} {ops : OperationSet}
    (h : e.runSteps tweakId side ops = .ok steps) : ∀ st ∈ steps, GoesOnward st.run :=
  forall_runSteps h (fun slot op _ => .runRegistry slot op) (fun slot op _ => .runService slot op)
    (fun op _ => .runText op _) fun slot op _ => .runFile he slot op

/-- Every step that restores an operation leads onward. -/
theorem restoreSteps_onward {ops : OperationSet} (h : e.restoreSteps tweakId ops = .ok steps) :
    ∀ st ∈ steps, GoesOnward st.run :=
  forall_restoreSteps h (fun slot op _ => .restoreRegistry slot op)
    (fun slot op _ => .restoreService slot op) (fun op _ => .revertScript op)
    fun slot op _ => .restoreFile slot op

/-- **A run always gives a result**, whatever its steps fail with, and it leads onward when its
steps do. -/
theorem execute_onward (cancelled : Session μ → Bool) (h : ∀ st ∈ steps, GoesOnward st.run)
    (r : Result) (s : Session μ) :
    ∃ r' s', (execute cancelled steps r).on s = (.ok r', s') ∧ s.Onward s' := by
  induction steps generalizing r s with
  | nil => exact ⟨r, s, rfl, .refl s⟩
  | cons st steps ih =>
    cases hc : cancelled s with
    | true =>
      rw [execute_of_cancelled hc]
      exact ⟨_, _, rfl, rfl, id⟩
    | false =>
      obtain ⟨r₁, f?, s₁, hrun, hcore, -⟩ := runStep_on st r s
      obtain ⟨-, -, hmemory, hstore⟩ := Core.mk.inj hcore
      have honward := h st List.mem_cons_self s
      have h₁ : s.Onward s₁ := ⟨hstore.trans honward.store, fun hs => hmemory ▸ honward.writable hs⟩
      rw [execute_of_step hc hrun]
      cases f? with
      | none =>
        obtain ⟨r', s', hrest, h'⟩ := ih (fun x hx => h x (List.mem_cons_of_mem _ hx)) r₁ s₁
        exact ⟨r', s', hrest, h₁.trans h'⟩
      | some f => exact ⟨_, _, rfl, h₁.trans ⟨rfl, id⟩⟩

end Engine
end TweakEngine
