/-
# Captures that can be written

A machine whose files are texts stays such a machine, whatever an engine runs on it, and
what is captured of it has the form that a file gives back.  `Legible t m₀ c` says both of
the core of a session.  `Engine.Gives` says that an action keeps it and what the action
gives, and is put together along the actions that a step is made of; every step of running
and of restoring a tweak keeps it (`runSteps_legible`, `restoreSteps_legible`).
-/

import TweakEngine.Proofs.CaptureForms
import TweakEngine.Proofs.RestoreRuns

namespace TweakEngine

open Session

/-- Every file of a machine is a text or cannot be read. -/
def Machine.Legible (m : Machine) : Prop :=
  ∀ path x, Assoc.get? path m.files = some x → x.IsOptionalText

/-- The settings of the machine are those of `m₀`, its files are texts, and what is captured
of the tweak can be written to a file. -/
structure Legible (t : Tweak) (m₀ : Machine) (c : Core Machine) : Prop where
  settings : c.machine.settings = m₀.settings
  files : c.machine.Legible
  tidy : c.memory.Tidy t.id

namespace Machine

variable {m m' : Machine} {w : Write} {r : w.Reply}

theorem apply_settings (h : m.apply w = .ok (r, m')) : m'.settings = m.settings := by
  cases hr : w.isRegistry with
  | true => exact (apply_registry_frame hr h).1
  | false =>
    cases hs : w.isService with
    | true => exact (apply_service_frame hs h).1
    | false => exact (apply_other_frame hr hs h).1

namespace Legible

theorem put (h : m.Legible) {content : Datum} (hc : content.IsOptionalText) (path : String) :
    Legible { m with files := Assoc.put path content m.files } := by
  intro p x hx
  rw [Assoc.get?_put] at hx
  split at hx
  · cases hx; exact hc
  · exact h p x hx

theorem erase (h : m.Legible) (path : String) :
    Legible { m with files := Assoc.erase path m.files } := by
  intro p x hx
  rw [Assoc.get?_erase] at hx
  split at hx
  · cases hx
  · exact h p x hx

theorem removePath (h : m.Legible) {path : Datum} (hm : m.removePath path = .ok m') :
    m'.Legible := by
  unfold Machine.removePath at hm
  split at hm
  · split at hm
    · cases hm; exact h.erase _
    · cases hm
  · cases hm

theorem duplicate (h : m.Legible) {source target : Datum}
    (hm : m.duplicate source target = .ok m') : m'.Legible := by
  obtain ⟨t, -, hm⟩ := ok_of_bind hm
  split at hm
  · split at hm
    · next hx => cases hm; exact h.put (h _ _ hx) t
    · split at hm
      · cases hm; exact h
      · cases hm
  · cases hm

theorem relocate (h : m.Legible) {source target : Datum}
    (hm : m.relocate source target = .ok m') : m'.Legible := by
  obtain ⟨t, -, hm⟩ := ok_of_bind hm
  split at hm
  · split at hm
    · next hx => cases hm; exact (h.erase _).put (h _ _ hx) t
    · split at hm
      · cases hm; exact h
      · cases hm
  · cases hm

/-- A write keeps the files legible, if it writes a text. -/
theorem apply (h : m.Legible) (hm : m.apply w = .ok (r, m'))
    (hw : ∀ path content create, w = .writeFile path content create → content.IsOptionalText) :
    m'.Legible := by
  have of_files : ∀ {m' : Machine}, m'.files = m.files → m'.Legible := fun e p x hx =>
    h p x (e ▸ hx)
  cases w with
  | setValue | deleteValue | createKey | deleteKey =>
    exact of_files (apply_registry_frame rfl hm).2.2
  | stopService | startService | setStartup => exact of_files (apply_service_frame rfl hm).2.2
  | runScript => cases hm; exact h
  | writeFile path content create =>
    obtain ⟨p, -, hm⟩ := ok_of_bind hm
    cases hm
    exact h.put (hw _ _ _ rfl) p
  | createDirectory =>
    obtain ⟨p, -, hm⟩ := ok_of_bind hm
    cases hm
    exact h
  | deletePath =>
    obtain ⟨m₁, h₁, hm⟩ := ok_of_bind hm
    cases hm
    exact h.removePath h₁
  | movePath =>
    obtain ⟨m₁, h₁, hm⟩ := ok_of_bind hm
    cases hm
    exact h.relocate h₁
  | copyPath =>
    obtain ⟨m₁, h₁, hm⟩ := ok_of_bind hm
    cases hm
    exact h.duplicate h₁

theorem fileText (h : m.Legible) (path : Datum) : (m.fileText path).IsOptionalText := by
  unfold Machine.fileText
  split
  · next s =>
    cases hx : Assoc.get? s m.files with
    | none => exact .inl rfl
    | some x => exact h s x hx
  · exact .inl rfl

end Legible
end Machine

/-- The texts that file operations write can be written to a snapshot, too. -/
def Tweak.WritesTexts (t : Tweak) : Prop := ∀ op ∈ t.operations.files, op.content.IsOptionalText

namespace Captures

variable {α : Type} {c : Captures α} {P : α → Prop} {id : String} {a : α}

theorem forall_keep (h : ∀ i b, Assoc.get? ⟨id, .apply, i⟩ c = some b → P b) (ha : P a)
    (slot : Slot) : ∀ i b, Assoc.get? ⟨id, .apply, i⟩ (c.keep slot a).1 = some b → P b := by
  intro i b hb
  rw [get?_keep] at hb
  split at hb
  · next e =>
    cases hc : Assoc.get? slot c with
    | none => rw [hc] at hb; cases hb; exact ha
    | some d => rw [hc] at hb; cases hb; exact h i _ (e ▸ hc)
  · exact h i b hb

theorem forall_erase (h : ∀ i b, Assoc.get? ⟨id, .apply, i⟩ c = some b → P b) (slot : Slot) :
    ∀ i b, Assoc.get? ⟨id, .apply, i⟩ (Assoc.erase slot c) = some b → P b := by
  intro i b hb
  rw [Assoc.get?_erase] at hb
  split at hb
  · cases hb
  · exact h i b hb

end Captures

namespace Engine

/-- An action leads from legible cores to legible ones, and what it gives satisfies `Q`. -/
def Gives (t : Tweak) (m₀ : Machine) {α : Type} (a : Work Machine α) (Q : α → Prop) : Prop :=
  ∀ s, Legible t m₀ s.core →
    Legible t m₀ (a.on s).2.core ∧ ∀ x, (a.on s).1 = .ok x → Q x

/-- An action leads from legible cores to legible ones. -/
def Tidies (t : Tweak) (m₀ : Machine) {α : Type} (a : Work Machine α) : Prop :=
  Gives t m₀ a fun _ => True

variable {t : Tweak} {m₀ : Machine} {e : Engine Machine} {slot : Slot} {α β : Type}

namespace Gives

variable {Q : α → Prop} {R : β → Prop}

theorem bind {a : Work Machine α} {k : α → Work Machine β} (ha : Gives t m₀ a Q)
    (hk : ∀ x, Q x → Gives t m₀ (k x) R) : Gives t m₀ (a >>= k) R := by
  intro s hs
  obtain ⟨h₁, h₂⟩ := ha s hs
  rw [Act.on_bind]
  revert h₁ h₂
  rcases a.on s with ⟨f | x, s₁⟩ <;> intro h₁ h₂
  · exact ⟨h₁, nofun⟩
  · exact hk x (h₂ x rfl) s₁ h₁

theorem pure {x : α} (hx : Q x) : Gives t m₀ (Pure.pure x) Q :=
  fun _ hs => ⟨hs, fun _ hy => by cases hy; exact hx⟩

theorem throw (f : Failure) : Gives t m₀ (MonadExcept.throw f) Q := fun _ hs => ⟨hs, nofun⟩

theorem throw_bind (f : Failure) (k : α → Work Machine β) :
    Gives t m₀ (MonadExcept.throw f >>= k) R := fun _ hs => ⟨hs, nofun⟩

/-- The answer of a machine whose files are texts. -/
theorem ask (h₀ : m₀.Willing) (r : Request) {f : Machine → Except Failure α}
    (hf : ∀ m x, m.Legible → f m = .ok x → Q x) :
    Gives t m₀ (onHost (Machine.ask r f)) Q := by
  intro s hs
  rw [ask_on (h₀.of_settings hs.settings)]
  exact ⟨hs, fun x => hf _ x hs.files⟩

theorem result {r : Except Failure α} (hr : ∀ x, r = .ok x → Q x) :
    Gives t m₀ (Act.result r) Q := fun _ hs => ⟨hs, hr⟩

end Gives

theorem stateWrite_isService {service : Datum} {before : Option RunState} {current : RunState}
    {w : Write} (hw : stateWrite service before current = some w) : w.isService = true := by
  unfold stateWrite at hw
  split at hw
  · cases hw; rfl
  · split at hw <;> cases hw
    rfl

namespace Tidies

theorem bind {a : Work Machine α} {k : α → Work Machine β} (ha : Tidies t m₀ a)
    (hk : ∀ x, Tidies t m₀ (k x)) : Tidies t m₀ (a >>= k) := Gives.bind ha fun x _ => hk x

theorem pure (x : α) : Tidies t m₀ (Pure.pure x) := Gives.pure trivial

theorem throw (f : Failure) : Tidies (α := α) t m₀ (MonadExcept.throw f) := Gives.throw f

theorem throw_bind (f : Failure) (k : α → Work Machine β) :
    Tidies t m₀ (MonadExcept.throw f >>= k) := Gives.throw_bind f k

theorem result (r : Except Failure α) : Tidies t m₀ (Act.result r) :=
  Gives.result fun _ _ => trivial

theorem discard {a : Work Machine α} (ha : Tidies t m₀ a) : Tidies t m₀ (discard a) := by
  intro s hs
  rw [Act.on_discard]
  exact ⟨(ha s hs).1, fun _ _ => trivial⟩

theorem say (level : Level) (speaker text : String) :
    Tidies t m₀ (Session.say level speaker text) := fun _ hs => ⟨hs, fun _ _ => trivial⟩

theorem ask (h₀ : m₀.Willing) (r : Request) (f : Machine → Except Failure α) :
    Tidies t m₀ (onHost (Machine.ask r f)) := Gives.ask h₀ r fun _ _ _ _ => trivial

theorem resolve (he : e.WorksOn) (hive : Hive) (path : Datum) :
    Tidies t m₀ (onHost (e.resolve hive path)) := by
  intro s hs
  rw [he.resolve_on]
  exact ⟨hs, fun _ _ => trivial⟩

theorem keepRegistry (slot : Slot) {c : RegistryCapture} (hc : c.Tidy) :
    Tidies t m₀ (capture registryPart slot c) := fun _ hs =>
  ⟨⟨hs.settings, hs.files, { hs.tidy with
    registry := Captures.forall_keep hs.tidy.registry hc slot }⟩, fun _ _ => trivial⟩

theorem keepService (slot : Slot) {c : ServiceCapture} (hc : c.Tidy) :
    Tidies t m₀ (capture servicesPart slot c) := fun _ hs =>
  ⟨⟨hs.settings, hs.files, { hs.tidy with
    services := Captures.forall_keep hs.tidy.services hc slot }⟩, fun _ _ => trivial⟩

theorem keepFile (slot : Slot) {c : FileCapture} (hc : c.Tidy) :
    Tidies t m₀ (capture filesPart slot c) := fun _ hs =>
  ⟨⟨hs.settings, hs.files, { hs.tidy with
    files := Captures.forall_keep hs.tidy.files hc slot }⟩, fun _ _ => trivial⟩

theorem releaseRegistry (slot : Slot) : Tidies t m₀ (release registryPart slot) := fun _ hs =>
  ⟨⟨hs.settings, hs.files, { hs.tidy with
    registry := Captures.forall_erase hs.tidy.registry slot }⟩, fun _ _ => trivial⟩

theorem releaseService (slot : Slot) : Tidies t m₀ (release servicesPart slot) := fun _ hs =>
  ⟨⟨hs.settings, hs.files, { hs.tidy with
    services := Captures.forall_erase hs.tidy.services slot }⟩, fun _ _ => trivial⟩

theorem releaseFile (slot : Slot) : Tidies t m₀ (release filesPart slot) := fun _ hs =>
  ⟨⟨hs.settings, hs.files, { hs.tidy with
    files := Captures.forall_erase hs.tidy.files slot }⟩, fun _ _ => trivial⟩

/-- A write, of a text if it writes a file. -/
theorem write (h₀ : m₀.Willing) (he : e.WorksOn) {w : Write}
    (hw : ∀ path content create, w = .writeFile path content create → content.IsOptionalText) :
    Tidies t m₀ (e.write w) := by
  intro s hs
  obtain ⟨r, s', hs', h⟩ := he.write_on (h₀.of_settings hs.settings) w
  rw [hs']
  refine ⟨?_, fun _ _ => trivial⟩
  rcases h with ⟨f, -, hcore⟩ | ⟨x, m', ha, -, hcore⟩
  · rw [hcore]
    exact hs
  · rw [hcore]
    exact ⟨(Machine.apply_settings ha).trans hs.settings, hs.files.apply ha hw, hs.tidy⟩

theorem writeRegistry (h₀ : m₀.Willing) (he : e.WorksOn) {w : Write} (hw : w.isRegistry = true) :
    Tidies t m₀ (e.write w) := write h₀ he fun _ _ _ h => by subst h; cases hw

theorem writeService (h₀ : m₀.Willing) (he : e.WorksOn) {w : Write} (hw : w.isService = true) :
    Tidies t m₀ (e.write w) := write h₀ he fun _ _ _ h => by subst h; cases hw

theorem pathExists (h₀ : m₀.Willing) (he : e.WorksOn) (path : Datum) :
    Tidies t m₀ (onHost (e.mutator.pathExists path)) := by
  rw [he.pathExists]
  exact ask h₀ _ _

theorem queryService (h₀ : m₀.Willing) (he : e.WorksOn) (service : Datum) :
    Tidies t m₀ (onHost (e.mutator.queryService service)) := by
  rw [he.queryService]
  exact ask h₀ _ _

/-! ## Steps of the registry and of services -/

theorem captureValue (h₀ : m₀.Willing) (he : e.WorksOn) (slot : Slot) (hive : Hive)
    (keyPath name : Datum) : Tidies t m₀ (e.captureValue slot hive keyPath name) := by
  unfold Engine.captureValue
  rw [he.readValue]
  exact (ask h₀ _ _).bind fun _ => (keepRegistry slot (RegistryCapture.tidy_of _ _ _)).discard

theorem runKey (h₀ : m₀.Willing) (he : e.WorksOn) (slot : Slot) (hive : Hive) (keyPath : Datum)
    (create : Bool) : Tidies t m₀ (e.runKey slot hive keyPath create) := by
  unfold Engine.runKey
  rw [he.keyExists]
  refine (ask h₀ _ _).bind fun _ =>
    (keepRegistry slot (RegistryCapture.tidy_of _ _ _)).discard.bind fun _ => ?_
  split
  · exact (writeRegistry h₀ he rfl).discard.bind fun _ => pure _
  · refine (writeRegistry h₀ he rfl).bind fun gone => ?_
    split <;> exact pure _

theorem runRegistry (h₀ : m₀.Willing) (he : e.WorksOn) (slot : Slot) (op : RegistryOperation) :
    Tidies t m₀ (e.runRegistry slot op) := by
  unfold Engine.runRegistry
  refine (resolve he _ _).bind fun (hive, keyPath) => ?_
  dsimp only
  cases op.action with
  | createKey | deleteKey => exact runKey h₀ he slot _ _ _
  | setValue =>
    refine (captureValue h₀ he slot _ _ _).bind fun _ => (result _).bind fun value? => ?_
    cases value? with
    | none => exact throw _
    | some value => exact (writeRegistry h₀ he rfl).bind fun _ => pure _
  | deleteValue =>
    refine (captureValue h₀ he slot _ _ _).bind fun _ => (writeRegistry h₀ he rfl).bind fun b => ?_
    split <;> exact pure _

theorem restoreRegistry (h₀ : m₀.Willing) (he : e.WorksOn) (slot : Slot) (op : RegistryOperation) :
    Tidies t m₀ (e.restoreRegistry slot op) := by
  have hcaptured : Tidies t m₀ (captured? registryPart slot) :=
    fun _ hs => ⟨hs, fun _ _ => trivial⟩
  unfold Engine.restoreRegistry
  refine hcaptured.bind fun c? => ?_
  cases c? with
  | none => exact pure _
  | some c =>
    refine (resolve he _ _).bind fun (hive, keyPath) => ?_
    dsimp only
    split
    · next hw =>
      exact (writeRegistry h₀ he (restoringWrite_isRegistry hw)).discard.bind fun _ =>
        (releaseRegistry slot).bind fun _ => pure _
    · exact (releaseRegistry slot).bind fun _ => pure _

theorem runService (h₀ : m₀.Willing) (he : e.WorksOn) (slot : Slot) (op : ServiceOperation) :
    Tidies t m₀ (e.runService slot op) := by
  unfold Engine.runService
  refine (queryService h₀ he _).bind fun snapshot => ?_
  dsimp only
  split
  · exact throw_bind _ _
  have htidy : (⟨snapshot.startup, some snapshot.state⟩ : ServiceCapture).Tidy := rfl
  refine (keepService slot htidy).discard.bind fun _ => ?_
  refine (Gives.result fun w hw => hw).bind fun w (hw : serviceWrite op = .ok w) => ?_
  have hservice : w.isService = true := by
    rcases serviceWrite_eq hw with rfl | rfl | ⟨_, rfl⟩ <;> rfl
  exact (writeService h₀ he hservice).discard.bind fun _ => pure _

theorem restoreService (h₀ : m₀.Willing) (he : e.WorksOn) (slot : Slot) (op : ServiceOperation) :
    Tidies t m₀ (e.restoreService slot op) := by
  have hcaptured : Tidies t m₀ (captured? servicesPart slot) :=
    fun _ hs => ⟨hs, fun _ _ => trivial⟩
  unfold Engine.restoreService
  refine hcaptured.bind fun c? => ?_
  cases c? with
  | none => exact pure _
  | some c =>
    dsimp only
    split
    case' isTrue => refine (writeService h₀ he rfl).bind fun _ => ?_
    -- with or without the start type, the state comes next
    all_goals
      refine (queryService h₀ he _).bind fun current => ?_
      split
      · next w hw =>
        exact (writeService h₀ he (stateWrite_isService hw)).discard.bind fun _ =>
          (releaseService slot).bind fun _ => pure _
      · exact (releaseService slot).bind fun _ => pure _

/-! ## Scripts and files -/

theorem runText (h₀ : m₀.Willing) (he : e.WorksOn) (op : ScriptOperation) (script : Datum) :
    Tidies t m₀ (e.runText op script) := by
  have hrun : Tidies t m₀ (e.write (.runScript script (.int op.timeout) op.elevated)) :=
    write h₀ he nofun
  unfold Engine.runText
  refine (result _).bind fun text => ?_
  dsimp only
  split
  · exact throw_bind _ _
  split
  on_goal 1 => refine (say _ _ _).bind fun _ => ?_
  all_goals
    refine hrun.bind fun x => ?_
    split
    · exact throw_bind _ _
    split
    · refine (result _).bind fun stderr => ?_
      split
      · exact (pure _).bind fun _ => throw_bind _ _
      · exact (result _).bind fun _ => throw_bind _ _
    · exact pure _

theorem revertScript (h₀ : m₀.Willing) (he : e.WorksOn) (op : ScriptOperation) :
    Tidies t m₀ (e.revertScript op) := by
  unfold Engine.revertScript
  split
  · exact pure _
  · exact runText h₀ he op _

theorem deletePath (h₀ : m₀.Willing) (he : e.WorksOn) (path : Datum) :
    Tidies t m₀ (e.write (.deletePath path)) := write h₀ he nofun

theorem movePath (h₀ : m₀.Willing) (he : e.WorksOn) (source target : Datum) :
    Tidies t m₀ (e.write (.movePath source target)) := write h₀ he nofun

theorem copyPath (h₀ : m₀.Willing) (he : e.WorksOn) (source target : Datum) :
    Tidies t m₀ (e.write (.copyPath source target)) := write h₀ he nofun

theorem createDirectory (h₀ : m₀.Willing) (he : e.WorksOn) (path : Datum) :
    Tidies t m₀ (e.write (.createDirectory path)) := write h₀ he nofun

theorem writeFile (h₀ : m₀.Willing) (he : e.WorksOn) (path : Datum) {content : Datum}
    (hc : content.IsOptionalText) (create : Bool) :
    Tidies t m₀ (e.write (.writeFile path content create)) :=
  write h₀ he fun _ _ _ h => by cases h; exact hc

theorem captureFile (h₀ : m₀.Willing) (he : e.WorksOn) (slot : Slot) (op : FileOperation) :
    Tidies t m₀ (e.captureFile slot op) := by
  have hcontent : Gives t m₀ (onHost (e.mutator.readText op.path)) Datum.IsOptionalText := by
    rw [he.readText]
    exact Gives.ask h₀ _ fun m x hm hx => by cases hx; exact hm.fileText _
  unfold Engine.captureFile
  refine (pathExists h₀ he _).bind fun existed => ?_
  dsimp only
  split
  · exact hcontent.bind fun content hc =>
      (keepFile slot (c := ⟨existed, content⟩) hc).bind fun _ => pure _
  · exact (keepFile slot (c := ⟨existed, .null⟩) (.inl rfl)).bind fun _ => pure _

theorem runTransfer (h₀ : m₀.Willing) (he : e.WorksOn) (slot : Slot) (op : FileOperation) {w : Write}
    (hw : Tidies t m₀ (e.write w)) : Tidies t m₀ (e.runTransfer slot op w) := by
  unfold Engine.runTransfer
  dsimp only
  split
  · exact throw_bind _ _
  · exact (pathExists h₀ he _).bind fun existed =>
      (keepFile slot (c := ⟨existed, .null⟩) (.inl rfl)).discard.bind fun _ =>
        hw.discard.bind fun _ => pure _

theorem runFile (h₀ : m₀.Willing) (he : e.WorksOn) (slot : Slot) {op : FileOperation}
    (hop : op.content.IsOptionalText) : Tidies t m₀ (e.runFile slot op) := by
  unfold Engine.runFile
  cases op.action with
  | setAttributes | takeOwnership => exact throw _
  | rename => exact runTransfer h₀ he slot op (movePath h₀ he _ _)
  | copy => exact runTransfer h₀ he slot op (copyPath h₀ he _ _)
  | createDirectory =>
    exact (captureFile h₀ he slot op).discard.bind fun _ =>
      (createDirectory h₀ he _).bind fun _ => pure _
  | createFile =>
    refine (captureFile h₀ he slot op).discard.bind fun _ => ?_
    refine (writeFile h₀ he _ ?_ _).bind fun _ => pure _
    split
    · exact hop
    · exact .inr ⟨_, rfl⟩
  | delete =>
    refine (captureFile h₀ he slot op).bind fun (existed, kept) => ?_
    dsimp only
    split
    · exact pure _
    split
    · exact (copyPath h₀ he _ _).bind fun _ => (deletePath h₀ he _).bind fun _ => pure _
    · exact (deletePath h₀ he _).bind fun _ => pure _

theorem undelete (h₀ : m₀.Willing) (he : e.WorksOn) (op : FileOperation) {c : FileCapture}
    (hc : c.Tidy) : Tidies t m₀ (e.undelete op c) := by
  unfold Engine.undelete
  dsimp only
  split
  on_goal 1 => refine (pathExists h₀ he _).bind fun existed => ?_
  on_goal 2 => refine (pure _).bind fun existed => ?_
  all_goals
    split
    · exact movePath h₀ he _ _
    split
    · split
      · exact throw_bind _ _
      · exact writeFile h₀ he _ hc _
    · exact pure _

theorem undoFile (h₀ : m₀.Willing) (he : e.WorksOn) (op : FileOperation) {c : FileCapture}
    (hc : c.Tidy) : Tidies t m₀ (e.undoFile op c) := by
  have hdelete : ∀ path, Tidies t m₀ (do
      if !c.existed then
        if ← onHost (e.mutator.pathExists path) then e.write (.deletePath path)) := fun path => by
    split
    · refine (pathExists h₀ he _).bind fun there => ?_
      split
      · exact deletePath h₀ he _
      · exact pure _
    · exact pure _
  unfold Engine.undoFile
  cases op.action with
  | delete => exact undelete h₀ he op hc
  | setAttributes | takeOwnership => exact pure _
  | createDirectory | copy => exact hdelete _
  | createFile =>
    dsimp only
    split
    · exact deletePath h₀ he _
    split
    · exact writeFile h₀ he _ hc _
    · exact pure _
  | rename =>
    refine (pathExists h₀ he _).bind fun there => ?_
    split
    · exact movePath h₀ he _ _
    · exact pure _

theorem restoreFile (h₀ : m₀.Willing) (he : e.WorksOn) (i : Nat) (op : FileOperation) :
    Tidies t m₀ (e.restoreFile ⟨t.id, .apply, i⟩ op) := by
  have hcaptured : Gives t m₀ (captured? filesPart ⟨t.id, .apply, i⟩)
      fun c? => ∀ c, c? = some c → c.Tidy := fun s hs =>
    ⟨hs, fun c? h c hc => by cases h; exact hs.tidy.files i c hc⟩
  unfold Engine.restoreFile
  cases op.action with
  | setAttributes | takeOwnership => exact pure _
  | _ =>
    refine hcaptured.bind fun c? hc => ?_
    cases c? with
    | none => exact pure _
    | some c =>
      exact (undoFile h₀ he op (hc c rfl)).bind fun _ => (releaseFile _).bind fun _ => pure _

end Tidies

/-! ## Runs -/

variable {cancelled : Session Machine → Bool} {steps : List (Step Machine)}

/-- Steps that all lead from legible cores to legible ones. -/
theorem leads_legible (h : ∀ st ∈ steps, Tidies t m₀ st.run) :
    Leads cancelled steps (Legible t m₀) (Legible t m₀) (Legible t m₀) :=
  leads_keeping (fun _ _ hs => hs) fun st hst s hs => by
    have h' := (h st hst s hs).1
    split <;> exact h'

/-- **Running a tweak** leaves captures that can be written, wherever the run is cut short. -/
theorem runSteps_legible (cancelled : Session Machine → Bool) (h₀ : m₀.Willing) (he : e.WorksOn)
    (ht : t.Plain) (hw : t.WritesTexts) (hsteps : e.runSteps t.id .apply t.operations = .ok steps) :
    Leads cancelled steps (Legible t m₀) (Legible t m₀) (Legible t m₀) := by
  obtain ⟨scripts, heq, hscripts⟩ := runSteps_eq ht e
  cases hsteps.symm.trans heq
  refine leads_legible fun st hst => ?_
  simp only [List.mem_append, stepsFor, List.mem_map] at hst
  obtain ((⟨⟨op, i⟩, -, rfl⟩ | ⟨⟨op, i⟩, -, rfl⟩) | hst) | ⟨⟨op, i⟩, hmem, rfl⟩ := hst
  · exact .runRegistry h₀ he _ op
  · exact .runService h₀ he _ op
  · obtain ⟨op, -, hrun⟩ := hscripts st hst
    rw [hrun]
    exact .runText h₀ he op op.script
  · exact .runFile h₀ he _ (hw op (List.fst_mem_of_mem_zipIdx hmem))

/-- **Restoring a tweak** leaves captures that can be written, wherever it is cut short. -/
theorem restoreSteps_legible (cancelled : Session Machine → Bool) (h₀ : m₀.Willing) (he : e.WorksOn)
    (ht : t.Plain) (hsteps : e.restoreSteps t.id t.operations = .ok steps) :
    Leads cancelled steps (Legible t m₀) (Legible t m₀) (Legible t m₀) := by
  obtain ⟨scripts, heq, hscripts⟩ := restoreSteps_eq ht e
  cases hsteps.symm.trans heq
  refine leads_legible fun st hst => ?_
  simp only [List.mem_append, stepsFor, List.mem_reverse, List.mem_map] at hst
  obtain ((⟨⟨op, i⟩, -, rfl⟩ | hst) | ⟨⟨op, i⟩, -, rfl⟩) | ⟨⟨op, i⟩, -, rfl⟩ := hst
  · exact .restoreFile h₀ he i op
  · obtain ⟨op, -, hrun⟩ := hscripts st hst
    rw [hrun]
    exact .revertScript h₀ he op
  · exact .restoreService h₀ he _ op
  · exact .restoreRegistry h₀ he _ op

end Engine

end TweakEngine
