/-
# Steps on a machine

What the steps of an engine do when it works on a machine in memory.  `Engine.WorksOn`
says that the engine reads the machine and that each of its writes is refused without
effect or performed; `Engine.Faithful` that it refuses none.  Running a registry or
service operation notes what its target holds and then changes the machine by the
operation's own write or not at all (`runRegistry_on`, `runService_on`); restoring
performs the restoring writes and strikes out the note (`restoreRegistry_on`,
`restoreService_on`).  Scripts and file operations leave registry, services and their
notes alone.
-/

import TweakEngine.Proofs.MachineView
import TweakEngine.Proofs.Requests
import TweakEngine.Proofs.StepRuns

namespace TweakEngine

open Session

/-- A machine that shows every key and refuses no request. -/
structure Machine.Open (m : Machine) : Prop where
  denied : m.denied = []
  faults : ∀ r, m.faults r = none

theorem Machine.Open.of_settings {m m' : Machine} (h : m.Open) (same : m'.settings = m.settings) :
    m'.Open := by
  have h₁ : m'.denied = m.denied := congrArg (·.1) same
  have h₂ : m'.faults = m.faults := congrArg (·.2.1) same
  exact ⟨h₁.trans h.denied, fun r => by rw [h₂]; exact h.faults r⟩

/-- A machine that refuses no request. -/
def Machine.Willing (m : Machine) : Prop := ∀ r, m.faults r = none

theorem Machine.Open.willing {m : Machine} (h : m.Open) : m.Willing := h.faults

theorem Machine.Willing.of_settings {m m' : Machine} (h : m.Willing)
    (same : m'.settings = m.settings) : m'.Willing := by
  have hfaults : m'.faults = m.faults := congrArg (·.2.1) same
  intro r
  rw [hfaults]
  exact h r

/-- The answer of an open machine to reading a value shows what is stored. -/
theorem Machine.Open.reading {m : Machine} (h : m.Open) (hive : Hive) (path name : String) :
    (m.reading hive path name).valueExists = (m.stored (hive, path) name).isSome ∧
      (m.reading hive path name).value? = m.content (hive, path) name := by
  have hd : (hive, path) ∉ m.denied := by simp [h.denied]
  unfold Machine.reading Machine.content Machine.stored
  rw [if_neg hd]
  cases Assoc.get? (hive, path) m.keys with
  | none => exact ⟨rfl, rfl⟩
  | some values =>
    dsimp only [Option.bind_some]
    cases Assoc.get? name values <;> exact ⟨rfl, rfl⟩

/-- The content that restoring from a note brings back. -/
def RegistryCapture.content (c : RegistryCapture) : Option RegistryValue :=
  if c.existed then c.value else none

namespace Engine

/-- An engine that reads a machine for the current user, and whose writes are refused
without effect or performed. -/
structure WorksOn (e : Engine Machine) : Prop where
  readValue : e.mutator.readValue = Machine.readValue
  keyExists : e.mutator.keyExists = Machine.keyExists
  queryService : e.mutator.queryService = Machine.queryService
  pathExists : e.mutator.pathExists = Machine.pathExists
  readText : e.mutator.readText = Machine.readText
  currentUser : e.targetUser.truthy = false
  writes : ∀ w s, (∃ f, (e.write w).on s = (.error f, s)) ∨
    (e.write w).on s = (onHost (Machine.perform w)).on s

/-- An engine whose writes are all performed. -/
structure Faithful (e : Engine Machine) : Prop extends e.WorksOn where
  performs : ∀ w, e.write w = onHost (Machine.perform w)

variable {e : Engine Machine} {s : Session Machine} {w : Write} {slot : Slot}

/-- A willing machine answers what it is asked, and asking changes nothing. -/
theorem ask_on {α : Type} (hm : s.core.machine.Willing) (r : Request)
    (f : Machine → Except Failure α) :
    (onHost (Machine.ask r f)).on s = (f s.core.machine, s) := by
  rw [ask_answers, Machine.answer_of_none (hm r)]

/-- A write changes the machine as the machine says. -/
theorem perform_on (hm : s.core.machine.Willing) (w : Write) :
    ∃ s', (onHost (Machine.perform w)).on s = (Prod.fst <$> s.core.machine.apply w, s') ∧
      s'.core = { s.core with
        machine := ((Prod.snd <$> s.core.machine.apply w).toOption.getD s.core.machine) } := by
  obtain ⟨s', hs', hcore⟩ := perform_answers (s := s) w
  rw [Machine.answer_of_none (hm (.write w))] at hs' hcore
  exact ⟨s', hs', hcore⟩

/-- A write that a machine carries out is refused without effect or carried out. -/
theorem WorksOn.write_on (he : e.WorksOn) (hm : s.core.machine.Willing) (w : Write) :
    ∃ r s', (e.write w).on s = (r, s') ∧ ((∃ f, r = .error f ∧ s'.core = s.core) ∨
      ∃ x m', s.core.machine.apply w = .ok (x, m') ∧ r = .ok x ∧
        s'.core = { s.core with machine := m' }) := by
  rcases he.writes w s with ⟨f, hf⟩ | h
  · exact ⟨_, s, hf, .inl ⟨f, rfl, rfl⟩⟩
  · obtain ⟨s', hs', hcore⟩ := perform_on hm w
    refine ⟨_, s', h.trans hs', ?_⟩
    cases ha : s.core.machine.apply w with
    | error f => exact .inl ⟨f, rfl, by rw [hcore, ha]; rfl⟩
    | ok x => exact .inr ⟨x.1, x.2, rfl, rfl, by rw [hcore, ha]; rfl⟩

/-- A faithful engine carries out what the machine carries out. -/
theorem Faithful.write_on (he : e.Faithful) (hm : s.core.machine.Willing) {x : w.Reply} {m' : Machine}
    (hw : s.core.machine.apply w = .ok (x, m')) :
    ∃ s', (e.write w).on s = (.ok x, s') ∧ s'.core = { s.core with machine := m' } := by
  obtain ⟨s', hs', hcore⟩ := perform_on hm w
  rw [hw] at hs' hcore
  exact ⟨s', by rw [he.performs]; exact hs', hcore⟩

/-! ## Registry operations -/

end Engine

namespace RegistryOperation

/-- The key that an operation works on. -/
def key (op : RegistryOperation) : Hive × String := Machine.keyOf op.hive op.keyPath

/-- The stored name of the value that an operation works on. -/
def name (op : RegistryOperation) : String := Machine.nameOf op.valueName

/-- What an operation notes of a machine. -/
def noteOf (op : RegistryOperation) (m : Machine) : RegistryCapture :=
  match op.action with
  | .createKey | .deleteKey => .of (m.hasKey op.key) none (m.hasKey op.key)
  | .setValue | .deleteValue =>
    .of (m.stored op.key op.name).isSome (m.content op.key op.name)
      (m.reading op.hive op.key.2 op.name).keyExists

/-- What an operation notes of a machine, as reading it shows. -/
def seen (op : RegistryOperation) (m : Machine) : RegistryCapture :=
  match op.action with
  | .createKey | .deleteKey => .of (m.hasKey op.key) none (m.hasKey op.key)
  | .setValue | .deleteValue =>
    .of (m.reading op.hive op.key.2 op.name).valueExists
      (m.reading op.hive op.key.2 op.name).value? (m.reading op.hive op.key.2 op.name).keyExists

/-- Reading an open machine shows everything. -/
theorem seen_eq_noteOf {op : RegistryOperation} {m : Machine} (hm : m.Open) :
    op.seen m = op.noteOf m := by
  obtain ⟨hexists, hvalue⟩ := hm.reading op.hive op.key.2 op.name
  unfold seen noteOf
  rw [hexists, hvalue]
  rfl

/-- The writes that running an operation may issue. -/
def issues (op : RegistryOperation) (w : Write) : Prop :=
  match op.action with
  | .createKey => w = .createKey op.hive op.keyPath
  | .deleteKey => w = .deleteKey op.hive op.keyPath
  | .setValue => ∃ v, op.resolveValue = .ok (some v) ∧
      w = .setValue op.hive op.keyPath op.valueName v
  | .deleteValue => w = .deleteValue op.hive op.keyPath op.valueName

/-- The text fields of an operation hold texts. -/
structure Textual (op : RegistryOperation) : Prop where
  keyPath : op.keyPath.IsText
  valueName : op.valueName.IsOptionalText

/-- The name of a textual operation has a stored form. -/
theorem Textual.storedName {op : RegistryOperation} (h : op.Textual) :
    Machine.foldedName op.valueName = .ok op.name := Machine.foldedName_text h.valueName

end RegistryOperation

namespace Engine

variable {e : Engine Machine} {s : Session Machine} {slot : Slot} {op : RegistryOperation}

/-- Without a target user operations go where they say. -/
theorem WorksOn.resolve_on (he : e.WorksOn) (hive : Hive) (path : Datum) :
    (onHost (e.resolve hive path)).on s = (.ok (hive, path), s) := by
  simp [resolve, he.currentUser, onHost, hostPart]

theorem WorksOn.readValue_on (he : e.WorksOn) (hm : s.core.machine.Willing) {hive : Hive}
    {path name : Datum} (hp : path.IsText) (hn : name.IsOptionalText) :
    (onHost (e.mutator.readValue hive path name)).on s =
      (.ok (s.core.machine.reading hive (Text.lowerAsciiText path.display) (Machine.nameOf name)),
        s) := by
  rw [he.readValue, Machine.readValue, ask_on hm, Machine.folded_text hp,
    Machine.foldedName_text hn]
  rfl

theorem WorksOn.keyExists_on (he : e.WorksOn) (hm : s.core.machine.Willing) {hive : Hive}
    {path : Datum} (hp : path.IsText) :
    (onHost (e.mutator.keyExists hive path)).on s =
      (.ok (s.core.machine.hasKey (Machine.keyOf hive path)), s) := by
  rw [he.keyExists, Machine.keyExists, ask_on hm, Machine.folded_text hp]
  rfl

/-- Capturing writes a note unless there is one. -/
theorem capture_on {α : Type} (part : Part (Session Machine) (Captures α)) (slot : Slot) (c : α) :
    (discard (capture part slot c)).on s =
      (.ok (), part.set (Captures.keep slot c (part.get s)).1 s) := by
  simp [capture]

/-- The core after a note of the registry has been made. -/
def notedAs (c : Core Machine) (slot : Slot) (n : RegistryCapture) : Core Machine :=
  { c with memory := { c.memory with
      registry := (Captures.keep slot n c.memory.registry).1 } }

/-- The core after a registry operation has noted what is there. -/
def noted (c : Core Machine) (slot : Slot) (op : RegistryOperation) : Core Machine :=
  { c with memory := { c.memory with
      registry := (Captures.keep slot (op.noteOf c.machine) c.memory.registry).1 } }

/-- A machine carries out every write of a textual operation. -/
theorem apply_issues {m : Machine} {w : Write} (hop : op.Textual) (hw : op.issues w) :
    ∃ x m', m.apply w = .ok (x, m') := by
  unfold RegistryOperation.issues at hw
  split at hw
  · subst hw
    obtain ⟨x, m', h, -⟩ := m.apply_createKey op.hive hop.keyPath
    exact ⟨x, m', h⟩
  · subst hw
    obtain ⟨x, m', h, -⟩ := m.apply_deleteKey op.hive hop.keyPath
    exact ⟨x, m', h⟩
  · obtain ⟨v, -, rfl⟩ := hw
    obtain ⟨m', h, -⟩ := m.apply_setValue op.hive hop.keyPath hop.storedName v
    exact ⟨(), m', h⟩
  · subst hw
    obtain ⟨x, m', h, -⟩ := m.apply_deleteValue op.hive hop.keyPath hop.storedName
    exact ⟨x, m', h⟩

/-- Issuing an operation's write when everything is noted. -/
theorem WorksOn.issue_on (he : e.WorksOn) {s₁ : Session Machine} {n : RegistryCapture}
    (hm : s.core.machine.Willing) (h₁ : s₁.core = notedAs s.core slot n) (hop : op.Textual)
    {w : Write} (hw : op.issues w) {k : w.Reply → Work Machine (Option String)}
    (hk : ∀ x s, ∃ note, (k x).on s = (.ok note, s)) :
    ∃ r s', (e.write w >>= k).on s₁ = (r, s') ∧ (e.Faithful → goesOn r = true) ∧
      (s'.core = notedAs s.core slot n ∨
        ∃ w x m', op.issues w ∧ s.core.machine.apply w = .ok (x, m') ∧
          s'.core = { notedAs s.core slot n with machine := m' }) := by
  have hm₁ : s₁.core.machine = s.core.machine := by rw [h₁]; rfl
  obtain ⟨r, s', hs', h⟩ := he.write_on (hm₁ ▸ hm) w
  have hfaithful : e.Faithful → ∃ x, r = .ok x := fun hf => by
    obtain ⟨x, m', ha⟩ := apply_issues (m := s₁.core.machine) hop hw
    obtain ⟨s'', hs'', -⟩ := hf.write_on (hm₁ ▸ hm) ha
    exact ⟨x, congrArg Prod.fst (hs'.symm.trans hs'')⟩
  rw [Act.on_bind, hs']
  rcases h with ⟨f, rfl, hcore⟩ | ⟨x, m', ha, rfl, hcore⟩
  · exact ⟨_, s', rfl, (fun hf => nomatch hfaithful hf), .inl (hcore.trans h₁)⟩
  · obtain ⟨note, hnote⟩ := hk x s'
    refine ⟨_, s', hnote, fun _ => rfl, .inr ⟨w, x, m', hw, hm₁ ▸ ha, ?_⟩⟩
    rw [hcore, h₁]

theorem WorksOn.captureValue_on (he : e.WorksOn) (slot : Slot) (hm : s.core.machine.Willing)
    (hop : op.Textual) (ha : op.action = .setValue ∨ op.action = .deleteValue) :
    ∃ s₁, (e.captureValue slot op.hive op.keyPath op.valueName).on s = (.ok (), s₁) ∧
      s₁.core = notedAs s.core slot (op.seen s.core.machine) := by
  have hnote : op.seen s.core.machine = .of
      (s.core.machine.reading op.hive op.key.2 op.name).valueExists
      (s.core.machine.reading op.hive op.key.2 op.name).value?
      (s.core.machine.reading op.hive op.key.2 op.name).keyExists := by
    rcases ha with ha | ha <;> rw [RegistryOperation.seen, ha]
  unfold captureValue
  rw [Act.on_bind, he.readValue_on hm hop.keyPath hop.valueName]
  refine ⟨_, capture_on _ _ _, ?_⟩
  rw [notedAs, hnote]
  rfl

theorem WorksOn.captureKey_on (he : e.WorksOn) (slot : Slot) (hm : s.core.machine.Willing)
    (hop : op.Textual) (ha : op.action = .createKey ∨ op.action = .deleteKey) :
    ∃ s₁, (do
        let existed ← onHost (e.mutator.keyExists op.hive op.keyPath)
        discard (capture registryPart slot (RegistryCapture.of existed none existed))).on s =
          (.ok (), s₁) ∧
      s₁.core = notedAs s.core slot (op.seen s.core.machine) := by
  have hnote : op.seen s.core.machine = .of (s.core.machine.hasKey op.key) none
      (s.core.machine.hasKey op.key) := by
    rcases ha with ha | ha <;> rw [RegistryOperation.seen, ha]
  rw [Act.on_bind, he.keyExists_on hm hop.keyPath]
  refine ⟨_, capture_on _ _ _, ?_⟩
  rw [notedAs, hnote]
  rfl

/-- Running a registry operation on a machine that refuses nothing notes what reading it
shows, and then issues the operation's write, which is performed or not.  A payload that
cannot be used is the failure of the operation, and the only one when no write is refused. -/
theorem runRegistry_seen (he : e.WorksOn) (slot : Slot) (hm : s.core.machine.Willing)
    (hop : op.Textual) :
    ∃ r s', (e.runRegistry slot op).on s = (r, s') ∧
      (∀ f, op.action = .setValue → op.resolveValue = .error f → r = .error f) ∧
      (e.Faithful → (op.action = .setValue → goesOn op.resolveValue = true) → goesOn r = true) ∧
      (s'.core = notedAs s.core slot (op.seen s.core.machine) ∨
        ∃ w x m', op.issues w ∧ s.core.machine.apply w = .ok (x, m') ∧
          s'.core = { notedAs s.core slot (op.seen s.core.machine) with machine := m' }) := by
  unfold runRegistry
  rw [Act.on_bind, he.resolve_on]
  dsimp only
  cases ha : op.action with
  | createKey =>
    have hissues : op.issues (.createKey op.hive op.keyPath) := by
      rw [RegistryOperation.issues, ha]
    obtain ⟨s₁, hs₁, hcore⟩ := he.captureKey_on slot hm hop (.inl ha)
    simp only [runKey, if_true]
    rw [← bind_assoc, Act.on_bind, hs₁, Act.discard_bind]
    obtain ⟨r, s', hs', hgo, h⟩ := he.issue_on hm hcore hop hissues (k := fun _ => pure none)
      fun x s => ⟨none, rfl⟩
    exact ⟨r, s', hs', nofun, fun hf _ => hgo hf, h⟩
  | deleteKey =>
    have hissues : op.issues (.deleteKey op.hive op.keyPath) := by
      rw [RegistryOperation.issues, ha]
    obtain ⟨s₁, hs₁, hcore⟩ := he.captureKey_on slot hm hop (.inr ha)
    simp only [runKey, Bool.false_eq_true, if_false]
    rw [← bind_assoc, Act.on_bind, hs₁]
    obtain ⟨r, s', hs', hgo, h⟩ := he.issue_on hm hcore hop hissues
      (k := fun b => if b = true then pure none else pure (some "key did not exist"))
      fun b s => by cases b <;> exact ⟨_, rfl⟩
    exact ⟨r, s', hs', nofun, fun hf _ => hgo hf, h⟩
  | setValue =>
    dsimp only
    obtain ⟨s₁, hs₁, hcore⟩ := he.captureValue_on slot hm hop (.inl ha)
    rw [Act.on_bind, hs₁]
    dsimp only
    rw [Act.on_bind, Act.on_result]
    cases hv : op.resolveValue with
    | error f =>
      refine ⟨_, s₁, rfl, fun f' _ h => ?_, fun _ hgo => hgo rfl, .inl hcore⟩
      rw [← Except.error.inj h]
    | ok v? =>
      cases v? with
      | none => exact ⟨_, s₁, rfl, nofun, fun _ _ => rfl, .inl hcore⟩
      | some v =>
        have hissues : op.issues (.setValue op.hive op.keyPath op.valueName v) := by
          rw [RegistryOperation.issues, ha]
          exact ⟨v, hv, rfl⟩
        obtain ⟨r, s', hs', hgo, h⟩ := he.issue_on hm hcore hop hissues fun x s => ⟨none, rfl⟩
        exact ⟨r, s', hs', nofun, fun hf _ => hgo hf, h⟩
  | deleteValue =>
    dsimp only
    obtain ⟨s₁, hs₁, hcore⟩ := he.captureValue_on slot hm hop (.inr ha)
    have hissues : op.issues (.deleteValue op.hive op.keyPath op.valueName) := by
      rw [RegistryOperation.issues, ha]
    rw [Act.on_bind, hs₁]
    obtain ⟨r, s', hs', hgo, h⟩ := he.issue_on hm hcore hop hissues
      (k := fun b => if b = true then pure none else pure (some "value did not exist"))
      fun b s => by cases b <;> exact ⟨_, rfl⟩
    exact ⟨r, s', hs', nofun, fun hf _ => hgo hf, h⟩

/-- **Running a registry operation** notes what is there and then issues the operation's
write, which is performed or not.  A payload that cannot be used is the failure of the
operation, and the only one when no write is refused. -/
theorem runRegistry_on (he : e.WorksOn) (slot : Slot) (hm : s.core.machine.Open)
    (hop : op.Textual) :
    ∃ r s', (e.runRegistry slot op).on s = (r, s') ∧
      (∀ f, op.action = .setValue → op.resolveValue = .error f → r = .error f) ∧
      (e.Faithful → (op.action = .setValue → goesOn op.resolveValue = true) → goesOn r = true) ∧
      (s'.core = noted s.core slot op ∨ ∃ w x m', op.issues w ∧ s.core.machine.apply w = .ok (x, m') ∧
        s'.core = { noted s.core slot op with machine := m' }) := by
  obtain ⟨r, s', hs', hfail, hgo, hcore⟩ := runRegistry_seen he slot hm.willing hop
  rw [RegistryOperation.seen_eq_noteOf hm] at hcore
  exact ⟨r, s', hs', hfail, hgo, hcore⟩

/-- What restoring an operation from its note makes of a machine. -/
def Restored (op : RegistryOperation) (c : RegistryCapture) (m m' : Machine) : Prop :=
  match restoringWrite op c op.hive op.keyPath with
  | none => m' = m
  | some w => ∃ x, m.apply w = .ok (x, m')

/-- The write that restores a value brings its content back, or deletes what had none. -/
theorem restoringWrite_value (c : RegistryCapture) (hive : Hive) (keyPath : Datum)
    (ha : op.action = .setValue ∨ op.action = .deleteValue) :
    restoringWrite op c hive keyPath = some (match c.content with
      | some v => .setValue hive keyPath op.valueName v
      | none => .deleteValue hive keyPath op.valueName) := by
  unfold restoringWrite RegistryCapture.content
  rcases ha with ha | ha <;> rw [ha] <;> cases c.existed <;> cases c.value <;> rfl

theorem Restored.value {c : RegistryCapture} {m m' : Machine}
    (ha : op.action = .setValue ∨ op.action = .deleteValue) (h : Restored op c m m') :
    match c.content with
    | some v => ∃ x, m.apply (.setValue op.hive op.keyPath op.valueName v) = .ok (x, m')
    | none => ∃ x, m.apply (.deleteValue op.hive op.keyPath op.valueName) = .ok (x, m') := by
  rw [Restored, restoringWrite_value c op.hive op.keyPath ha] at h
  revert h
  cases c.content <;> exact id

/-- An open machine carries out every restoring write. -/
theorem exists_restored (hop : op.Textual) (c : RegistryCapture) (m : Machine) :
    ∃ m', Restored op c m m' := by
  unfold Restored
  cases hw : restoringWrite op c op.hive op.keyPath with
  | none => exact ⟨m, rfl⟩
  | some w =>
    dsimp only
    unfold restoringWrite at hw
    split at hw
    · split at hw <;> cases hw
      obtain ⟨x, m', h, -⟩ := m.apply_deleteKey op.hive hop.keyPath
      exact ⟨m', x, h⟩
    · split at hw <;> cases hw
      obtain ⟨x, m', h, -⟩ := m.apply_createKey op.hive hop.keyPath
      exact ⟨m', x, h⟩
    all_goals
      split at hw <;> cases hw
      · obtain ⟨m', h, -⟩ := m.apply_setValue op.hive hop.keyPath hop.storedName _
        exact ⟨m', (), h⟩
      · obtain ⟨x, m', h, -⟩ := m.apply_deleteValue op.hive hop.keyPath hop.storedName
        exact ⟨m', x, h⟩

/-- Without a note a registry operation has nothing to restore. -/
theorem restoreRegistry_on_none (slot : Slot) (hc : Assoc.get? slot s.core.memory.registry = none) :
    (e.restoreRegistry slot op).on s = (.ok (some nothingCaptured), s) := by
  have hc' : (captured? registryPart slot).on s = (.ok none, s) := by rw [← hc]; rfl
  rw [restoreRegistry, Act.on_bind, hc']
  rfl

/-- Striking out the note of a registry operation. -/
theorem release_registry_on (s' : Session Machine) :
    (do release registryPart slot; return none).on s' = (.ok (none : Option String),
      registryPart.set (Assoc.erase slot s'.memory.registry) s') := rfl

theorem core_release_registry {s' : Session Machine} {m' : Machine}
    (hcore : s'.core = { s.core with machine := m' }) :
    (registryPart.set (Assoc.erase slot s'.memory.registry) s').core = { s.core with
      machine := m'
      memory := { s.core.memory with registry := Assoc.erase slot s.core.memory.registry } } := by
  obtain ⟨h₁, h₂, h₃, h₄⟩ := Core.mk.inj hcore
  simp only [core, registryPart, Part.inside, memoryPart, Memory.registryPart, Core.mk.injEq]
  exact ⟨h₁, h₂, by rw [h₃]; rfl, h₄⟩

/-- **Restoring a registry operation** performs the restoring write and strikes out the note,
or the write is refused and nothing happens. -/
theorem restoreRegistry_tried (he : e.WorksOn) (slot : Slot) (hm : s.core.machine.Willing)
    (hop : op.Textual) {c : RegistryCapture} (hc : Assoc.get? slot s.core.memory.registry = some c) :
    ∃ r s', (e.restoreRegistry slot op).on s = (r, s') ∧ (e.Faithful → r = .ok none) ∧
      ((∃ f, r = .error f ∧ s'.core = s.core) ∨ ∃ m', r = .ok none ∧
        Restored op c s.core.machine m' ∧ s'.core = { s.core with
          machine := m'
          memory := { s.core.memory with registry := Assoc.erase slot s.core.memory.registry } }) := by
  have hc' : (captured? registryPart slot).on s = (.ok (some c), s) := by rw [← hc]; rfl
  obtain ⟨m₁, hm₁⟩ := exists_restored hop c s.core.machine
  have hrestored : ∀ m', Restored op c s.core.machine m' ↔
      match restoringWrite op c op.hive op.keyPath with
      | none => m' = s.core.machine
      | some w => ∃ x, s.core.machine.apply w = .ok (x, m') := fun _ => Iff.rfl
  rw [hrestored] at hm₁
  rw [restoreRegistry, Act.on_bind, hc']
  dsimp only
  rw [Act.on_bind, he.resolve_on]
  dsimp only
  cases hw : restoringWrite op c op.hive op.keyPath with
  | none =>
    rw [hw] at hrestored
    exact ⟨_, _, rfl, fun _ => rfl, .inr ⟨_, rfl, (hrestored _).mpr rfl, rfl⟩⟩
  | some w =>
    rw [hw] at hrestored hm₁
    obtain ⟨x₁, hx₁⟩ := hm₁
    obtain ⟨r, s', hs', hcases⟩ := he.write_on hm w
    dsimp only
    rw [Act.discard_bind, Act.on_bind, hs']
    rcases hcases with ⟨f, rfl, hcore⟩ | ⟨x, m', ha, rfl, hcore⟩
    · refine ⟨_, s', rfl, fun hf => ?_, .inl ⟨f, rfl, hcore⟩⟩
      obtain ⟨s'', hs'', -⟩ := hf.write_on hm hx₁
      cases hs'.symm.trans hs''
    · exact ⟨_, _, release_registry_on s', fun _ => rfl,
        .inr ⟨m', rfl, (hrestored m').mpr ⟨x, ha⟩, core_release_registry hcore⟩⟩

/-- When no write is refused, a noted registry operation is restored. -/
theorem restoreRegistry_on (he : e.Faithful) (slot : Slot) (hm : s.core.machine.Willing)
    (hop : op.Textual) {c : RegistryCapture} (hc : Assoc.get? slot s.core.memory.registry = some c) :
    ∃ s' m', (e.restoreRegistry slot op).on s = (.ok none, s') ∧
      Restored op c s.core.machine m' ∧
      s'.core = { s.core with
        machine := m'
        memory := { s.core.memory with registry := Assoc.erase slot s.core.memory.registry } } := by
  obtain ⟨r, s', hs', hok, ⟨f, rfl, -⟩ | ⟨m', rfl, hm', hcore⟩⟩ :=
    restoreRegistry_tried he.toWorksOn slot hm hop hc
  · cases hok he
  · exact ⟨s', m', hs', hm', hcore⟩

/-! ## Service operations -/

variable {sop : ServiceOperation}

theorem WorksOn.queryService_on (he : e.WorksOn) (hm : s.core.machine.Willing) {service : Datum}
    (hs : service.IsText) : (onHost (e.mutator.queryService service)).on s =
      (.ok (s.core.machine.snapshot service (Machine.serviceOf service)), s) := by
  rw [he.queryService, Machine.queryService, ask_on hm, Machine.folded_text hs]
  rfl

/-- The core after a service operation has noted the state of its service. -/
def notedService (c : Core Machine) (slot : Slot) (x : Machine.Service) : Core Machine :=
  { c with memory := { c.memory with
      services := (Captures.keep slot ⟨x.startup, some x.state⟩ c.memory.services).1 } }

/-- An operation on a service that does not exist changes nothing. -/
theorem runService_on_none (he : e.WorksOn) (slot : Slot) (hm : s.core.machine.Willing)
    (hs : sop.service.IsText)
    (hx : Assoc.get? (Machine.serviceOf sop.service) s.core.machine.services = none) :
    ∃ f, (e.runService slot sop).on s = (.error f, s) := by
  rw [runService, Act.on_bind, he.queryService_on hm hs, Machine.snapshot, hx]
  exact ⟨_, rfl⟩

/-- **Running a service operation** notes the state of the service and then issues the
operation's write, which is performed or not. -/
theorem runService_on (he : e.WorksOn) (slot : Slot) (hm : s.core.machine.Willing)
    (hs : sop.service.IsText) {x : Machine.Service}
    (hx : Assoc.get? (Machine.serviceOf sop.service) s.core.machine.services = some x) :
    ∃ r s', (e.runService slot sop).on s = (r, s') ∧
      (s'.core = notedService s.core slot x ∨ ∃ w a m', serviceWrite sop = .ok w ∧
        s.core.machine.apply w = .ok (a, m') ∧
          s'.core = { notedService s.core slot x with machine := m' }) := by
  rw [runService, Act.on_bind, he.queryService_on hm hs, Machine.snapshot, hx]
  simp only [Bool.not_true, Bool.false_eq_true, if_false]
  rw [Act.on_bind, capture_on]
  dsimp only
  rw [Act.on_bind, Act.on_result]
  cases hw : serviceWrite sop with
  | error f => exact ⟨_, _, rfl, .inl rfl⟩
  | ok w =>
    dsimp only
    obtain ⟨r, s', hs', h⟩ := he.write_on (s := servicesPart.set
      (Captures.keep slot ⟨x.startup, some x.state⟩ (servicesPart.get s)).1 s) hm w
    rw [Act.discard_bind, Act.on_bind, hs']
    rcases h with ⟨f, rfl, hcore⟩ | ⟨a, m', ha, rfl, hcore⟩
    · exact ⟨_, s', rfl, .inl hcore⟩
    · exact ⟨_, s', rfl, .inr ⟨w, a, m', rfl, ha, hcore⟩⟩

/-- The state that restoring gives a service. -/
def broughtTo (before : Option RunState) (current : RunState) : RunState :=
  if before = some .running ∧ current ≠ .running then .running
  else if before = some .stopped ∧ current = .running then .stopped
  else current

/-- A service with the start type and the state of a note. -/
def restoredService (c : ServiceCapture) (x : Machine.Service) : Machine.Service :=
  { x with
    startup := if c.startup ≠ .unknown then c.startup else x.startup
    state := broughtTo c.state x.state }

/-- Without a note a service operation has nothing to restore. -/
theorem restoreService_on_none (slot : Slot) (hc : Assoc.get? slot s.core.memory.services = none) :
    (e.restoreService slot sop).on s = (.ok (some nothingCaptured), s) := by
  have hc' : (captured? servicesPart slot).on s = (.ok none, s) := by rw [← hc]; rfl
  rw [restoreService, Act.on_bind, hc']
  rfl

/-- Striking out the note of a service operation. -/
theorem release_service_on (s' : Session Machine) :
    (do release servicesPart slot; return none).on s' = (.ok (none : Option String),
      servicesPart.set (Assoc.erase slot s'.memory.services) s') := rfl

theorem core_release_service {s' : Session Machine} {m' : Machine}
    (hcore : s'.core = { s.core with machine := m' }) :
    (servicesPart.set (Assoc.erase slot s'.memory.services) s').core = { s.core with
      machine := m'
      memory := { s.core.memory with services := Assoc.erase slot s.core.memory.services } } := by
  obtain ⟨h₁, h₂, h₃, h₄⟩ := Core.mk.inj hcore
  simp only [core, servicesPart, Part.inside, memoryPart, Memory.servicesPart, Core.mk.injEq]
  exact ⟨h₁, h₂, by rw [h₃]; rfl, h₄⟩

/-- The second half of restoring a service: its state is brought back and the note struck out,
or the write is refused and nothing happens. -/
theorem bringState_tried (he : e.WorksOn) (slot : Slot) (hm : s.core.machine.Willing)
    {service : Datum} (hs : service.IsText) (before : Option RunState) {x : Machine.Service}
    (hx : Assoc.get? (Machine.serviceOf service) s.core.machine.services = some x) :
    ∃ r s', (do
        let current ← onHost (e.mutator.queryService service)
        match stateWrite service before current.state with
        | some w => do
          discard (e.write w)
          release servicesPart slot
          return none
        | none => do
          release servicesPart slot
          return none).on s = (r, s') ∧ (e.Faithful → r = .ok (none : Option String)) ∧
      ((∃ f, r = .error f ∧ s'.core = s.core) ∨ ∃ m', r = .ok none ∧
        Machine.ServiceReplaced s.core.machine m' (Machine.serviceOf service)
          { x with state := broughtTo before x.state } ∧
        s'.core = { s.core with
          machine := m'
          memory := { s.core.memory with services := Assoc.erase slot s.core.memory.services } }) := by
  have hwrite : ∀ {w : Write}, (w = .stopService service ∨ w = .startService service ∨
      ∃ t, w = .setStartup service t) → ∃ r s', (do
        discard (e.write w)
        release servicesPart slot
        return none).on s = (r, s') ∧ (e.Faithful → r = .ok (none : Option String)) ∧
      ((∃ f, r = .error f ∧ s'.core = s.core) ∨ ∃ m', r = .ok none ∧
        Machine.ServiceReplaced s.core.machine m' (Machine.serviceOf service)
          (Machine.serviceAfter w x) ∧
        s'.core = { s.core with
          machine := m'
          memory := { s.core.memory with services := Assoc.erase slot s.core.memory.services } }) := by
    intro w hw
    obtain ⟨a₁, m₁, ha₁, hm₁⟩ := Machine.apply_service_text _ hs hw hx
    obtain ⟨r, s', hs', hcases⟩ := he.write_on hm w
    rw [Act.discard_bind, Act.on_bind, hs']
    rcases hcases with ⟨f, rfl, hcore⟩ | ⟨a, m', ha, rfl, hcore⟩
    · refine ⟨_, s', rfl, fun hf => ?_, .inl ⟨f, rfl, hcore⟩⟩
      obtain ⟨s'', hs'', -⟩ := hf.write_on hm ha₁
      cases hs'.symm.trans hs''
    · cases ha.symm.trans ha₁
      exact ⟨_, _, release_service_on s', fun _ => rfl,
        .inr ⟨_, rfl, hm₁, core_release_service hcore⟩⟩
  rw [Act.on_bind, he.queryService_on hm hs, Machine.snapshot, hx]
  dsimp only
  by_cases hrun : before = some .running ∧ x.state ≠ .running
  · simp only [stateWrite, broughtTo, if_pos hrun]
    exact hwrite (.inr (.inl rfl))
  simp only [stateWrite, broughtTo, if_neg hrun]
  by_cases hstop : before = some .stopped ∧ x.state = .running
  · simp only [if_pos hstop]
    exact hwrite (.inl rfl)
  · simp only [if_neg hstop]
    exact ⟨_, _, release_service_on s, fun _ => rfl,
      .inr ⟨_, rfl, .refl hx, core_release_service rfl⟩⟩

/-- **Restoring a service operation** gives the service the start type and the state of the
note and strikes out the note, or a write is refused and at most the start type changes. -/
theorem restoreService_tried (he : e.WorksOn) (slot : Slot) (hm : s.core.machine.Willing)
    (hs : sop.service.IsText) {c : ServiceCapture}
    (hc : Assoc.get? slot s.core.memory.services = some c) {x : Machine.Service}
    (hx : Assoc.get? (Machine.serviceOf sop.service) s.core.machine.services = some x) :
    ∃ r s', (e.restoreService slot sop).on s = (r, s') ∧ (e.Faithful → r = .ok none) ∧
      ((∃ f m' startup, r = .error f ∧ Machine.ServiceReplaced s.core.machine m'
          (Machine.serviceOf sop.service) { x with startup := startup } ∧
        s'.core = { s.core with machine := m' }) ∨ ∃ m', r = .ok none ∧
        Machine.ServiceReplaced s.core.machine m' (Machine.serviceOf sop.service)
          (restoredService c x) ∧
        s'.core = { s.core with
          machine := m'
          memory := { s.core.memory with services := Assoc.erase slot s.core.memory.services } }) := by
  have hc' : (captured? servicesPart slot).on s = (.ok (some c), s) := by rw [← hc]; rfl
  rw [restoreService, Act.on_bind, hc']
  dsimp only
  split
  · next hknown =>
    obtain ⟨a₁, m₁, ha₁, hm₁⟩ :=
      Machine.apply_service_text s.core.machine hs (.inr (.inr ⟨c.startup, rfl⟩)) hx
    obtain ⟨r, s₁, hs₁, hcases₁⟩ := he.write_on hm (.setStartup sop.service c.startup)
    rw [Act.on_bind, hs₁]
    rcases hcases₁ with ⟨f, rfl, hcore⟩ | ⟨a, m₂, ha, rfl, hcore₁⟩
    · refine ⟨_, s₁, rfl, fun hf => ?_, .inl ⟨f, _, x.startup, rfl, .refl hx, hcore⟩⟩
      obtain ⟨s'', hs'', -⟩ := hf.write_on hm ha₁
      cases hs₁.symm.trans hs''
    cases ha.symm.trans ha₁
    have hmachine : s₁.core.machine = m₁ := congrArg Core.machine hcore₁
    obtain ⟨r, s', hs', hok, hcases⟩ := bringState_tried he slot (s := s₁)
      (hmachine ▸ hm.of_settings hm₁.settings) hs c.state (hmachine ▸ hm₁.get)
    refine ⟨r, s', hs', hok, ?_⟩
    rcases hcases with ⟨f, rfl, hcore⟩ | ⟨m', rfl, hm', hcore⟩
    · exact .inl ⟨f, m₁, c.startup, rfl, hm₁, hcore.trans hcore₁⟩
    · refine .inr ⟨m', rfl, ?_, by rw [hcore, hcore₁]⟩
      rw [restoredService, if_pos hknown]
      exact hm₁.trans (hmachine ▸ hm')
  · next hunknown =>
    rw [restoredService, if_neg hunknown]
    obtain ⟨r, s', hs', hok, hcases⟩ := bringState_tried he slot hm hs c.state hx
    refine ⟨r, s', hs', hok, hcases.imp_left ?_⟩
    rintro ⟨f, rfl, hcore⟩
    exact ⟨f, _, x.startup, rfl, .refl hx, hcore⟩

/-- When no write is refused, a noted service operation is restored. -/
theorem restoreService_on (he : e.Faithful) (slot : Slot) (hm : s.core.machine.Willing)
    (hs : sop.service.IsText) {c : ServiceCapture} (hc : Assoc.get? slot s.core.memory.services = some c)
    {x : Machine.Service}
    (hx : Assoc.get? (Machine.serviceOf sop.service) s.core.machine.services = some x) :
    ∃ s' m', (e.restoreService slot sop).on s = (.ok none, s') ∧
      Machine.ServiceReplaced s.core.machine m' (Machine.serviceOf sop.service)
        (restoredService c x) ∧
      s'.core = { s.core with
        machine := m'
        memory := { s.core.memory with services := Assoc.erase slot s.core.memory.services } } := by
  obtain ⟨r, s', hs', hok, ⟨f, -, -, rfl, -⟩ | ⟨m', rfl, hm', hcore⟩⟩ :=
    restoreService_tried he.toWorksOn slot hm hs hc hx
  · cases hok he
  · exact ⟨s', m', hs', hm', hcore⟩

end Engine
end TweakEngine
