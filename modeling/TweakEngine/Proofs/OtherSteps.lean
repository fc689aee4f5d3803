/-
# Scripts and files

The steps of scripts and file operations leave the registry, the services, what is noted
of both, the snapshots and the settings of the machine alone (`Session.standing`).  When
the engine refuses no write and scripts answer with texts, such a step fails
operationally at most, so that the run goes on.  `Aside` says both, and is put together
along the actions that a step is made of.
-/

import TweakEngine.Proofs.MachineSteps

namespace TweakEngine

open Session

/-- Every script answers with texts. -/
def Machine.Outspoken (m : Machine) : Prop :=
  ∀ text script, Assoc.get? text m.scripts = some script →
    script.outcome.stdout.isSome ∧ script.outcome.stderr.isSome

/-- What scripts and file operations leave alone. -/
structure Standing where
  settings : List (Hive × String) × (Request → Option Failure) × Assoc String Machine.Script
  keys : Assoc (Hive × String) (Assoc String (Option RegistryValue))
  services : Assoc String Machine.Service
  registryNotes : Captures RegistryCapture
  serviceNotes : Captures ServiceCapture
  disk : Disk
  store : Option Snapshot.Store

/-- What scripts and file operations leave alone of a core. -/
def Core.standing (c : Core Machine) : Standing :=
  ⟨c.machine.settings, c.machine.keys, c.machine.services, c.memory.registry, c.memory.services,
    c.disk, c.store⟩

/-- The text fields of an operation hold texts. -/
structure ScriptOperation.Textual (op : ScriptOperation) : Prop where
  script : op.script.IsText
  revert : op.revert.IsOptionalText

/-- The text fields of an operation hold texts. -/
structure FileOperation.Textual (op : FileOperation) : Prop where
  path : op.path.IsText
  target : op.target.IsOptionalText
  backup : op.backup.IsOptionalText

theorem Datum.IsOptionalText.isText {d : Datum} (h : d.IsOptionalText) (ht : d.truthy = true) :
    d.IsText := by
  rcases h with rfl | h
  · cases ht
  · exact h

namespace Engine

/-- An action that leaves `Core.standing` alone and, for a faithful engine and scripts that
answer with texts, fails operationally at most. -/
def Aside (e : Engine Machine) (m₀ : Machine) {α : Type} (a : Work Machine α) : Prop :=
  ∀ s, s.core.machine.settings = m₀.settings →
    (a.on s).2.core.standing = s.core.standing ∧
      (e.Faithful → m₀.Outspoken → goesOn (a.on s).1 = true)

namespace Aside

variable {e : Engine Machine} {m₀ : Machine} {α β : Type}

theorem pure (x : α) : Aside e m₀ (Pure.pure x : Work Machine α) :=
  fun _ _ => ⟨rfl, fun _ _ => rfl⟩

theorem throw {f : Failure} (hf : f.isOperational = true) :
    Aside e m₀ (MonadExcept.throw f : Work Machine α) := fun _ _ => ⟨rfl, fun _ _ => hf⟩

theorem throw_bind {f : Failure} (hf : f.isOperational = true) (k : α → Work Machine β) :
    Aside e m₀ (MonadExcept.throw f >>= k) := fun _ _ => ⟨rfl, fun _ _ => hf⟩

theorem result {r : Except Failure α} (hr : m₀.Outspoken → goesOn r = true) :
    Aside e m₀ (Act.result r : Work Machine α) := fun _ _ => ⟨rfl, fun _ => hr⟩

/-- One action after the other, of which the second knows what the first can give. -/
theorem bind_of {a : Work Machine α} {k : α → Work Machine β} (ha : Aside e m₀ a)
    (hk : ∀ s x, s.core.machine.settings = m₀.settings → (a.on s).1 = .ok x → Aside e m₀ (k x)) :
    Aside e m₀ (a >>= k) := by
  intro s hs
  obtain ⟨h₁, h₂⟩ := ha s hs
  have hk' := hk s
  rw [Act.on_bind]
  revert h₁ h₂ hk'
  rcases a.on s with ⟨f | x, t⟩ <;> intro h₁ h₂ hk'
  · exact ⟨h₁, h₂⟩
  · have ht : t.core.machine.settings = m₀.settings := (congrArg Standing.settings h₁).trans hs
    obtain ⟨h₃, h₄⟩ := hk' x hs rfl t ht
    exact ⟨h₃.trans h₁, h₄⟩

theorem bind {a : Work Machine α} {k : α → Work Machine β} (ha : Aside e m₀ a)
    (hk : ∀ x, Aside e m₀ (k x)) : Aside e m₀ (a >>= k) := ha.bind_of fun _ x _ _ => hk x

theorem discard {a : Work Machine α} (ha : Aside e m₀ a) : Aside e m₀ (discard a) := by
  intro s hs
  obtain ⟨h₁, h₂⟩ := ha s hs
  rw [Act.on_discard]
  refine ⟨h₁, fun he ho => ?_⟩
  have := h₂ he ho
  revert this
  rcases (a.on s).1 with f | x
  · exact id
  · exact fun _ => rfl

theorem say (level : Level) (speaker text : String) :
    Aside e m₀ (Session.say level speaker text : Work Machine Unit) :=
  fun _ _ => ⟨rfl, fun _ _ => rfl⟩

theorem capture (slot : Slot) (c : FileCapture) : Aside e m₀ (capture filesPart slot c) :=
  fun _ _ => ⟨rfl, fun _ _ => rfl⟩

theorem captured? (slot : Slot) : Aside e m₀ (captured? filesPart slot) :=
  fun _ _ => ⟨rfl, fun _ _ => rfl⟩

theorem release (slot : Slot) : Aside e m₀ (release filesPart slot) :=
  fun _ _ => ⟨rfl, fun _ _ => rfl⟩

/-- Asking an open machine changes nothing. -/
theorem ask (h₀ : m₀.Willing) (r : Request) {f : Machine → Except Failure α}
    (hf : ∀ m, goesOn (f m) = true) : Aside e m₀ (onHost (Machine.ask r f)) := by
  intro s hs
  rw [ask_on (h₀.of_settings hs)]
  exact ⟨rfl, fun _ _ => hf _⟩

theorem pathExists (h₀ : m₀.Willing) (he : e.WorksOn) {path : Datum} (hp : path.IsOptionalText) :
    Aside e m₀ (onHost (e.mutator.pathExists path)) := by
  rw [he.pathExists]
  refine ask h₀ _ fun m => ?_
  rcases hp with rfl | ⟨s, rfl⟩ <;> rfl

theorem readText (h₀ : m₀.Willing) (he : e.WorksOn) (path : Datum) :
    Aside e m₀ (onHost (e.mutator.readText path)) := by
  rw [he.readText]
  exact ask h₀ _ fun m => rfl

/-- A write that is about neither registry nor services. -/
theorem write (h₀ : m₀.Willing) (he : e.WorksOn) {w : Write} (hr : w.isRegistry = false)
    (hs : w.isService = false) (hf : ∀ m : Machine, goesOn (m.apply w) = true) : Aside e m₀ (e.write w) := by
  intro s hset
  have hm : s.core.machine.Willing := h₀.of_settings hset
  obtain ⟨r, s', hs', h⟩ := he.write_on hm w
  constructor
  · rw [hs']
    rcases h with ⟨f, -, hcore⟩ | ⟨x, m', ha, -, hcore⟩
    · rw [hcore]
    · obtain ⟨h₁, h₂, h₃⟩ := Machine.apply_other_frame hr hs ha
      simp only [hcore, Core.standing, h₁, h₂, h₃]
  · intro hfaithful _
    obtain ⟨s₁, hs₁, -⟩ := perform_on hm w
    rw [hfaithful.performs, hs₁]
    have := hf s.core.machine
    revert this
    rcases s.core.machine.apply w with f | x
    · exact id
    · exact fun _ => rfl

end Aside

theorem goesOn_bind {α β : Type} {x : Except Failure α} {k : α → Except Failure β}
    (hx : goesOn x = true) (hk : ∀ a, goesOn (k a) = true) : goesOn (x >>= k) = true := by
  cases x with
  | error f => exact hx
  | ok a => exact hk a

theorem goesOn_textOf {d : Datum} (h : d.IsText) : goesOn (Machine.textOf d) = true := by
  obtain ⟨s, rfl⟩ := h
  rfl

/-- A machine refuses to take away a path only because it is not there. -/
theorem goesOn_removePath (m : Machine) (path : Datum) : goesOn (m.removePath path) = true := by
  unfold Machine.removePath
  split
  · split <;> rfl
  · rfl

theorem goesOn_relocate (m : Machine) (source : Datum) {target : Datum} (h : target.IsText) :
    goesOn (m.relocate source target) = true := by
  refine goesOn_bind (goesOn_textOf h) fun t => ?_
  split
  · split
    · rfl
    · split <;> rfl
  · rfl

theorem goesOn_duplicate (m : Machine) (source : Datum) {target : Datum} (h : target.IsText) :
    goesOn (m.duplicate source target) = true := by
  refine goesOn_bind (goesOn_textOf h) fun t => ?_
  split
  · split
    · rfl
    · split <;> rfl
  · rfl

namespace Aside

variable {e : Engine Machine} {m₀ : Machine} {slot : Slot}

theorem deletePath (h₀ : m₀.Willing) (he : e.WorksOn) (path : Datum) :
    Aside e m₀ (e.write (.deletePath path)) :=
  write h₀ he rfl rfl fun m => goesOn_bind (goesOn_removePath m path) fun _ => rfl

theorem movePath (h₀ : m₀.Willing) (he : e.WorksOn) (source : Datum) {target : Datum}
    (ht : target.IsText) : Aside e m₀ (e.write (.movePath source target)) :=
  write h₀ he rfl rfl fun m => goesOn_bind (goesOn_relocate m source ht) fun _ => rfl

theorem copyPath (h₀ : m₀.Willing) (he : e.WorksOn) (source : Datum) {target : Datum}
    (ht : target.IsText) : Aside e m₀ (e.write (.copyPath source target)) :=
  write h₀ he rfl rfl fun m => goesOn_bind (goesOn_duplicate m source ht) fun _ => rfl

theorem writeFile (h₀ : m₀.Willing) (he : e.WorksOn) {path : Datum} (hp : path.IsText)
    (content : Datum) (create : Bool) : Aside e m₀ (e.write (.writeFile path content create)) :=
  write h₀ he rfl rfl fun _ => goesOn_bind (goesOn_textOf hp) fun _ => rfl

theorem createDirectory (h₀ : m₀.Willing) (he : e.WorksOn) {path : Datum} (hp : path.IsText) :
    Aside e m₀ (e.write (.createDirectory path)) :=
  write h₀ he rfl rfl fun _ => goesOn_bind (goesOn_textOf hp) fun _ => rfl

/-- The outcome of a script that runs on a machine answers with texts. -/
theorem runScript_ok (h₀ : m₀.Willing) (he : e.WorksOn) {s : Session Machine} {script timeout : Datum}
    {elevated : Bool} {x : ScriptOutcome} (hs : s.core.machine.settings = m₀.settings)
    (hx : ((e.write (.runScript script timeout elevated)).on s).1 = .ok x) (ho : m₀.Outspoken) :
    x.stdout.isSome ∧ x.stderr.isSome := by
  obtain ⟨r, s', hs', h⟩ := he.write_on (h₀.of_settings hs) (.runScript script timeout elevated)
  rw [hs'] at hx
  rcases h with ⟨f, rfl, -⟩ | ⟨y, m', ha, rfl, -⟩
  · cases hx
  · cases hx
    cases ha
    have hscripts : s.core.machine.scripts = m₀.scripts := congrArg (·.2.2) hs
    unfold Machine.scriptOf
    rw [hscripts]
    split
    · next text =>
      cases ht : Assoc.get? text m₀.scripts with
      | none => exact ⟨rfl, rfl⟩
      | some script => exact ho text script ht
    · exact ⟨rfl, rfl⟩

theorem trimmedOutput {text : Option String} (ht : m₀.Outspoken → text.isSome) :
    Aside e m₀ (Act.result (runText.trimmedOutput text) : Work Machine String) :=
  result fun ho => by
    obtain ⟨t, rfl⟩ := Option.isSome_iff_exists.mp (ht ho)
    rfl

theorem runText (h₀ : m₀.Willing) (he : e.WorksOn) (op : ScriptOperation) {script : Datum}
    (hs : script.IsText) : Aside e m₀ (e.runText op script) := by
  have htrim : goesOn (Detection.trimmed script) = true := by
    obtain ⟨t, rfl⟩ := hs
    unfold Detection.trimmed
    split <;> rfl
  have hrun : Aside e m₀ (e.write (.runScript script (.int op.timeout) op.elevated)) :=
    write h₀ he rfl rfl fun _ => rfl
  unfold Engine.runText
  refine bind (result fun _ => htrim) fun text => ?_
  dsimp only
  split
  · exact throw_bind rfl _
  split
  on_goal 1 => refine (say _ _ _).bind fun _ => ?_
  all_goals
    refine hrun.bind_of fun s x hset hx => ?_
    have hspoken := runScript_ok h₀ he hset hx
    split
    · exact throw_bind rfl _
    split
    · refine (trimmedOutput fun ho => (hspoken ho).2).bind fun stderr => ?_
      split
      · exact (pure _).bind fun _ => throw_bind rfl _
      · exact (trimmedOutput fun ho => (hspoken ho).1).bind fun _ => throw_bind rfl _
    · exact pure _

theorem runScript (h₀ : m₀.Willing) (he : e.WorksOn) {op : ScriptOperation} (hop : op.Textual) :
    Aside e m₀ (e.runScript op) := runText h₀ he op hop.script

theorem revertScript (h₀ : m₀.Willing) (he : e.WorksOn) {op : ScriptOperation} (hop : op.Textual) :
    Aside e m₀ (e.revertScript op) := by
  unfold Engine.revertScript
  cases ht : op.revert.truthy with
  | false => exact pure _
  | true => exact runText h₀ he op (hop.revert.isText ht)

theorem captureFile (h₀ : m₀.Willing) (he : e.WorksOn) {op : FileOperation} (hop : op.Textual) :
    Aside e m₀ (e.captureFile slot op) := by
  unfold Engine.captureFile
  refine (pathExists h₀ he hop.path.optional).bind fun existed => ?_
  dsimp only
  split
  · exact (readText h₀ he _).bind fun content => (capture _ _).bind fun kept => pure _
  · exact (pure _).bind fun content => (capture _ _).bind fun kept => pure _

theorem runTransfer (h₀ : m₀.Willing) (he : e.WorksOn) {op : FileOperation} (hop : op.Textual)
    {w : Write} (hw : op.target.IsText → Aside e m₀ (e.write w)) :
    Aside e m₀ (e.runTransfer slot op w) := by
  unfold Engine.runTransfer
  dsimp only
  cases ht : op.target.truthy with
  | false => exact throw_bind rfl _
  | true =>
    exact (pathExists h₀ he hop.target).bind fun existed =>
      (capture _ _).discard.bind fun _ => (hw (hop.target.isText ht)).discard.bind fun _ => pure _

theorem runFile (h₀ : m₀.Willing) (he : e.WorksOn) {op : FileOperation} (hop : op.Textual) :
    Aside e m₀ (e.runFile slot op) := by
  unfold Engine.runFile
  cases op.action with
  | setAttributes | takeOwnership => exact throw rfl
  | rename => exact runTransfer h₀ he hop fun ht => movePath h₀ he _ ht
  | copy => exact runTransfer h₀ he hop fun ht => copyPath h₀ he _ ht
  | createFile =>
    exact (captureFile h₀ he hop).discard.bind fun _ =>
      (writeFile h₀ he hop.path _ _).bind fun _ => pure _
  | createDirectory =>
    exact (captureFile h₀ he hop).discard.bind fun _ =>
      (createDirectory h₀ he hop.path).bind fun _ => pure _
  | delete =>
    refine (captureFile h₀ he hop).bind fun (existed, kept) => ?_
    dsimp only
    cases existed with
    | false => exact pure _
    | true =>
      simp only [Bool.not_true, Bool.false_eq_true, if_false]
      split
      · next hb =>
        rw [Bool.and_eq_true] at hb
        exact (copyPath h₀ he _ (hop.backup.isText hb.1)).bind fun _ =>
          (deletePath h₀ he _).bind fun _ => pure _
      · exact (deletePath h₀ he _).bind fun _ => pure _

theorem undelete (h₀ : m₀.Willing) (he : e.WorksOn) {op : FileOperation} (hop : op.Textual)
    (c : FileCapture) : Aside e m₀ (e.undelete op c) := by
  unfold Engine.undelete
  dsimp only
  split
  on_goal 1 => refine (pathExists h₀ he hop.backup).bind fun existed => ?_
  on_goal 2 => refine (pure _).bind fun existed => ?_
  all_goals
    split
    · exact movePath h₀ he _ hop.path
    split
    · split
      · exact throw_bind rfl _
      · exact writeFile h₀ he hop.path _ _
    · exact pure _

/-- Taking away what is at a path, if anything is. -/
theorem deleteIfThere (h₀ : m₀.Willing) (he : e.WorksOn) {path : Datum} (hp : path.IsOptionalText)
    (existed : Bool) : Aside e m₀ (do
      if !existed then
        if ← onHost (e.mutator.pathExists path) then e.write (.deletePath path)) := by
  cases existed with
  | true => exact pure _
  | false =>
    refine (pathExists h₀ he hp).bind fun there => ?_
    split
    · exact deletePath h₀ he _
    · exact pure _

theorem undoFile (h₀ : m₀.Willing) (he : e.WorksOn) {op : FileOperation} (hop : op.Textual)
    (c : FileCapture) : Aside e m₀ (e.undoFile op c) := by
  unfold Engine.undoFile
  cases op.action with
  | delete => exact undelete h₀ he hop c
  | setAttributes | takeOwnership => exact pure _
  | createDirectory => exact deleteIfThere h₀ he hop.path.optional c.existed
  | copy => exact deleteIfThere h₀ he hop.target c.existed
  | createFile =>
    dsimp only
    split
    · exact deletePath h₀ he _
    split
    · exact writeFile h₀ he hop.path _ _
    · exact pure _
  | rename =>
    refine (pathExists h₀ he hop.target).bind fun there => ?_
    split
    · exact movePath h₀ he _ hop.path
    · exact pure _

theorem restoreFile (h₀ : m₀.Willing) (he : e.WorksOn) {op : FileOperation} (hop : op.Textual) :
    Aside e m₀ (e.restoreFile slot op) := by
  unfold Engine.restoreFile
  cases op.action with
  | setAttributes | takeOwnership => exact pure _
  | _ =>
    refine (captured? slot).bind fun c? => ?_
    cases c? with
    | none => exact pure _
    | some c => exact (undoFile h₀ he hop c).bind fun _ => (release slot).bind fun _ => pure _

end Aside
end Engine
end TweakEngine
