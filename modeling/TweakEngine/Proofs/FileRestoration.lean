/-
# Restoration of files

File operations change what the ones after them find, so that an operation has to be taken back
on the view that it has made.  `FileOperation.Invertible` says when the note of an operation
suffices for this (`FileOperation.Invertible.undone`).  A sequence of views that the operations
make one after the other, each of which its note takes back (`Tweak.Retraces`), is followed
upward by applying the tweak and downward by reverting it (`FilesRun.next`, `FilesRun.back`), so
that applying and reverting leave the machine as it was (`revert_restores_files`).
-/

import TweakEngine.Proofs.FileViews
import TweakEngine.Proofs.ReadOnlyDetection
import TweakEngine.Proofs.SnapshotFiles
import TweakEngine.Proofs.TweakRuns

namespace TweakEngine

open Session

namespace FileView

/-- No path is both a file and a directory. -/
def Apart (x : FileView) : Prop := ∀ p, x.files p ≠ none → x.directories p = false

variable {x : FileView} {p q : String} {content old : Datum}

theorem taken_eq_false : x.taken p = false ↔ x.files p = none ∧ x.directories p = false := by
  rw [taken, Bool.or_eq_false_iff, Option.isSome_eq_false_iff, Option.isNone_iff_eq_none]

/-- A known text is that of a file. -/
theorem files_of_text (h : (x.text p).isNull = false) :
    x.files p = some (x.text p) ∧ x.taken p = true := by
  rw [text] at h ⊢
  rw [taken]
  cases hp : x.files p with
  | none => rw [hp] at h; cases h
  | some content => exact ⟨rfl, rfl⟩

/-- A path that is taken is not a free one. -/
theorem ne_of_taken (hp : x.taken p = true) (hq : x.taken q = false) : p ≠ q := fun e => by
  rw [e, hq] at hp
  cases hp

theorem taken_writing : (x.writing p content).taken p = true := by simp [taken, writing]

theorem taken_making : (x.making p).taken p = true := by simp [taken, making]

theorem taken_copied : (x.copying p q).taken q = true := by
  unfold copying
  split
  · exact taken_writing
  · exact taken_making

theorem taken_moving : (x.moving p q).taken q = true := by
  unfold moving
  split <;> simp [taken]

theorem making_self (h : x.directories p = true) : x.making p = x := by
  rw [making, ← h, Function.update_eq_self]

/-! ## Changes that are taken back -/

theorem clearing_writing (h : x.taken p = false) : (x.writing p content).clearing p = x := by
  obtain ⟨hfile, hdir⟩ := taken_eq_false.mp h
  simp only [clearing, writing, Function.update_idem]
  rw [← hfile, ← hdir, Function.update_eq_self, Function.update_eq_self]

theorem writing_writing (h : x.files p = some old) : (x.writing p content).writing p old = x := by
  simp only [writing, Function.update_idem]
  rw [← h, Function.update_eq_self]

theorem clearing_making (h : x.taken p = false) : (x.making p).clearing p = x := by
  obtain ⟨hfile, hdir⟩ := taken_eq_false.mp h
  simp only [clearing, making, Function.update_idem]
  rw [← hfile, ← hdir, Function.update_eq_self, Function.update_eq_self]

theorem writing_clearing (h : x.files p = some old) (hdir : x.directories p = false) :
    (x.clearing p).writing p old = x := by
  simp only [writing, clearing, Function.update_idem]
  rw [← h, ← hdir, Function.update_eq_self, Function.update_eq_self]

theorem clearing_copying (h : x.taken q = false) : (x.copying p q).clearing q = x := by
  unfold copying
  split
  · exact clearing_writing h
  · exact clearing_making h

/-- Moving something away and back. -/
theorem moving_moving (hp : x.taken p = true) (hq : x.taken q = false) :
    (x.moving p q).moving q p = x := by
  obtain ⟨hfile, hdir⟩ := taken_eq_false.mp hq
  have hne := ne_of_taken hp hq
  have hback : ∀ {α : Type} {f : String → α} {a b c : α}, f p = a → f q = b →
      Function.update (Function.update (Function.update (Function.update f p c) q a) q b) p a = f := by
    rintro α f _ _ c rfl rfl
    rw [Function.update_idem, Function.update_comm hne, Function.update_idem,
      Function.update_eq_self, Function.update_eq_self]
  cases hpf : x.files p with
  | some content =>
    have hmoved : x.moving p q = { x with
        files := Function.update (Function.update x.files p none) q (some content) } := by
      rw [moving, hpf]
    rw [hmoved, moving]
    simp only [Function.update_self, hback hpf hfile]
  | none =>
    have hmoved : x.moving p q = { x with
        directories := Function.update (Function.update x.directories p false) q true } := by
      rw [moving, hpf]
    have hpd : x.directories p = true := by simpa [taken, hpf] using hp
    rw [hmoved, moving, hfile]
    simp only [hback hpd hdir]

/-! ## Paths stay apart -/

theorem Apart.writing (hx : x.Apart) (hdir : x.directories p = false) : (x.writing p content).Apart := by
  intro r hr
  by_cases h : r = p
  · rw [h]
    exact hdir
  · exact hx r (by simpa [FileView.writing, h] using hr)

theorem Apart.making (hx : x.Apart) (hfile : x.files p = none) : (x.making p).Apart := by
  intro r hr
  by_cases h : r = p
  · rw [h] at hr
    exact absurd hfile hr
  · simpa [FileView.making, h] using hx r hr

theorem Apart.clearing (hx : x.Apart) : (x.clearing p).Apart := by
  intro r hr
  by_cases h : r = p
  · simp [FileView.clearing, h] at hr
  · simpa [FileView.clearing, h] using hx r (by simpa [FileView.clearing, h] using hr)

theorem Apart.copying (hx : x.Apart) (hq : x.taken q = false) : (x.copying p q).Apart := by
  obtain ⟨hfile, hdir⟩ := taken_eq_false.mp hq
  unfold FileView.copying
  split
  · exact hx.writing hdir
  · exact hx.making hfile

/-- Moving is copying and clearing. -/
theorem clearing_copying_eq_moving (hx : x.files p ≠ none → x.directories p = false) (hne : p ≠ q) :
    (x.copying p q).clearing p = x.moving p q := by
  cases hpf : x.files p with
  | some content =>
    rw [FileView.copying, moving, hpf]
    simp only [FileView.clearing, FileView.writing]
    rw [Function.update_comm hne, ← hx (hpf ▸ Option.some_ne_none content),
      Function.update_eq_self]
  | none =>
    rw [FileView.copying, moving, hpf]
    simp only [FileView.clearing, FileView.making]
    rw [Function.update_comm hne, ← hpf, Function.update_eq_self]

theorem Apart.moving (hx : x.Apart) (hp : x.taken p = true) (hq : x.taken q = false) :
    (x.moving p q).Apart :=
  clearing_copying_eq_moving (hx p) (ne_of_taken hp hq) ▸ (hx.copying hq).clearing

end FileView

/-! ## Operations that can be taken back -/

namespace FileOperation

variable {op : FileOperation} {x : FileView}

/-- An operation that can be taken back when it runs on a view: nothing is at the path of a new
file or it has a known text, no file is at the path of a new directory; what is deleted is
missing, or is a known text without a backup, or is backed up at a free path; and what is moved
or copied is there and its target is free. -/
def Invertible (op : FileOperation) (x : FileView) : Prop :=
  match op.action with
  | .createFile => x.taken op.path.display = false ∨ (x.text op.path.display).isNull = false
  | .createDirectory => x.files op.path.display = none
  | .delete => x.taken op.path.display = false ∨
      (x.text op.path.display).isNull = false ∧ op.backup.truthy = false ∨
      x.taken op.path.display = true ∧ op.backup.truthy = true ∧ x.taken op.backup.display = false
  | .rename | .copy =>
    x.taken op.path.display = true ∧ op.target.truthy = true ∧ x.taken op.target.display = false
  | .setAttributes | .takeOwnership => False

instance (op : FileOperation) (x : FileView) : Decidable (op.Invertible x) := by
  unfold Invertible
  cases op.action <;> infer_instance

/-- **Restoring an operation from its note takes back what running it has done.** -/
theorem Invertible.undone (h : op.Invertible x) (hx : x.Apart) :
    ∃ y, op.effect x = some y ∧ op.undone (op.noteOf x) y = some x ∧ y.Apart := by
  unfold Invertible at h
  unfold effect noteOf FileOperation.undone
  cases ha : op.action with
  | setAttributes | takeOwnership => rw [ha] at h; exact h.elim
  | createFile =>
    simp only [ha] at h ⊢
    refine ⟨_, rfl, ?_⟩
    rcases h with h | h
    · simp only [h, FileView.taken_writing, Bool.not_false, if_true, FileView.clearing_writing h]
      exact ⟨trivial, hx.writing (FileView.taken_eq_false.mp h).2⟩
    · obtain ⟨hfile, htaken⟩ := FileView.files_of_text h
      simp only [htaken, h, Bool.not_true, Bool.not_false, Bool.false_eq_true, if_true, if_false,
        FileView.writing_writing hfile]
      exact ⟨trivial, hx.writing (hx _ (by rw [hfile]; exact nofun))⟩
  | createDirectory =>
    simp only [ha] at h ⊢
    refine ⟨_, rfl, ?_, hx.making h⟩
    cases ht : x.taken op.path.display with
    | false =>
      simp only [FileView.taken_making, Bool.not_false, Bool.and_self, if_true,
        FileView.clearing_making ht]
    | true =>
      have hdir : x.directories op.path.display = true := by simpa [FileView.taken, h] using ht
      simp only [Bool.not_true, Bool.false_and, Bool.false_eq_true, if_false,
        FileView.making_self hdir]
  | delete =>
    simp only [ha] at h ⊢
    refine ⟨_, rfl, ?_⟩
    rcases h with h | ⟨h, hb⟩ | ⟨h, hb, hfree⟩
    · simp only [h, Bool.false_and, Bool.false_eq_true, if_false]
      exact ⟨trivial, hx⟩
    · obtain ⟨hfile, htaken⟩ := FileView.files_of_text h
      simp only [htaken, h, hb, Bool.and_false, Bool.false_and, Bool.false_eq_true, if_true, if_false,
        FileView.writing_clearing hfile (hx _ (by rw [hfile]; exact nofun))]
      exact ⟨trivial, hx.clearing⟩
    · simp only [h, hb, Bool.true_and, if_true, FileView.taken_moving,
        FileView.clearing_copying_eq_moving (hx _) (FileView.ne_of_taken h hfree),
        FileView.moving_moving h hfree]
      exact ⟨trivial, hx.moving h hfree⟩
  | rename =>
    simp only [ha] at h ⊢
    obtain ⟨h, htarget, hfree⟩ := h
    simp only [h, htarget, Bool.and_self, if_true, FileView.taken_moving,
      FileView.moving_moving h hfree, Option.some.injEq, exists_eq_left', true_and]
    exact hx.moving h hfree
  | copy =>
    simp only [ha] at h ⊢
    obtain ⟨h, htarget, hfree⟩ := h
    simp only [h, htarget, hfree, Bool.and_self, if_true, Bool.not_false, FileView.taken_copied,
      FileView.clearing_copying hfree, Option.some.injEq, exists_eq_left', true_and]
    exact hx.copying hfree

/-- An operation that has an effect is one that is restored, and its target is given. -/
theorem of_effect (hop : op.Textual) (h : op.effect x ≠ none) :
    (op.action = .rename ∨ op.action = .copy → op.target.IsText) ∧
      op.action ≠ .setAttributes ∧ op.action ≠ .takeOwnership := by
  unfold effect at h
  refine ⟨?_, ?_, ?_⟩
  · rintro (ha | ha)
    all_goals
      simp only [ha, ne_eq, ite_eq_right_iff, reduceCtorEq, imp_false, not_not, Bool.and_eq_true] at h
      exact hop.target.isText h.1
  all_goals
    intro ha
    rw [ha] at h
    exact h rfl

end FileOperation

/-! ## Runs -/

/-- What is noted for the file operation at a position. -/
def Memory.fileNote (c : Memory) (id : String) (i : Nat) : Option FileCapture :=
  Assoc.get? ⟨id, .apply, i⟩ c.files

/-- The operations are on files, their text fields hold texts, and there are no others. -/
structure Tweak.FilesOnly (t : Tweak) : Prop where
  registry : t.operations.registry = []
  services : t.operations.services = []
  scripts : t.operations.scripts = []
  textual : ∀ op ∈ t.operations.files, op.Textual
  withoutUndo : t.undo? = none

/-- The session when file operations have run one after the other, whatever their outcome. -/
def Engine.afterFiles (e : Engine Machine) (id : String) (ops : List FileOperation)
    (s : Session Machine) : Session Machine :=
  ops.zipIdx.foldl (fun s (op, i) => ((e.runFile ⟨id, .apply, i⟩ op).on s).2) s

/-- The first operations have been run on a machine and the others have not: the machine is the
first one but for its files, and what was there is noted. -/
structure FilesRun (t : Tweak) (m₀ : Machine) (views : Nat → FileView) (i : Nat)
    (c : Core Machine) : Prop where
  machine : m₀.Rearranged c.machine (views i)
  noted : ∀ j op, j < i → t.operations.files[j]? = some op →
    c.memory.fileNote t.id j = some (op.noteOf (views j))
  fresh : ∀ j ≥ i, c.memory.fileNote t.id j = none

/-- Each operation of a tweak makes the next view of a sequence, and its note makes the view
before of it. -/
def Tweak.Retraces (t : Tweak) (views : Nat → FileView) : Prop :=
  ∀ i op, t.operations.files[i]? = some op →
    op.effect (views i) = some (views (i + 1)) ∧
      op.undone (op.noteOf (views i)) (views (i + 1)) = some (views i)

section

variable {e : Engine Machine} {t : Tweak} {m₀ : Machine} {views : Nat → FileView} {i : Nat}
  {op : FileOperation} {s : Session Machine} {cancelled : Session Machine → Bool}

/-- Running the next operation. -/
theorem FilesRun.next (he : e.mutator = Machine.mutator) (hm₀ : m₀.Willing) (ht : t.FilesOnly)
    (h : FilesRun t m₀ views i s.core) (hi : t.operations.files[i]? = some op)
    (heffect : op.effect (views i) = some (views (i + 1))) :
    ∃ note? s', (e.runFile ⟨t.id, .apply, i⟩ op).on s = (.ok note?, s') ∧
      FilesRun t m₀ views (i + 1) s'.core := by
  have hrun := Engine.runFile_on he (h.machine.willing hm₀)
    (ht.textual op (List.mem_of_getElem? hi)) (h.fresh i (Nat.le_refl i))
  rw [h.machine.view, heffect] at hrun
  obtain ⟨note?, m', s', hs', hview, hcore⟩ := hrun
  have hnote : ∀ j, s'.core.memory.fileNote t.id j =
      if j = i then some (op.noteOf (views i)) else s.core.memory.fileNote t.id j := fun j => by
    rw [Memory.fileNote, hcore]
    exact (Assoc.get?_put ..).trans (by simp only [Slot.mk.injEq, true_and, eq_comm (a := i)]; rfl)
  refine ⟨note?, s', hs', ?_, fun j op' hj hop' => ?_, fun j hj => ?_⟩
  · rw [hcore]
    exact h.machine.trans hview
  · rw [hnote]
    by_cases hji : j = i
    · subst hji
      cases hi.symm.trans hop'
      rw [if_pos rfl]
    · rw [if_neg hji]
      exact h.noted j op' (by omega) hop'
  · rw [hnote, if_neg (by omega)]
    exact h.fresh j (by omega)

/-- Restoring the last operation that was run. -/
theorem FilesRun.back (he : e.mutator = Machine.mutator) (hm₀ : m₀.Willing) (ht : t.FilesOnly)
    (h : FilesRun t m₀ views (i + 1) s.core) (hi : t.operations.files[i]? = some op)
    (hnoted : op.effect (views i) ≠ none)
    (hback : op.undone (op.noteOf (views i)) (views (i + 1)) = some (views i)) :
    ∃ s', (e.restoreFile ⟨t.id, .apply, i⟩ op).on s = (.ok none, s') ∧
      FilesRun t m₀ views i s'.core := by
  have hop := ht.textual op (List.mem_of_getElem? hi)
  obtain ⟨htarget, hkind⟩ := FileOperation.of_effect hop hnoted
  have hrun := Engine.restoreFile_on he (h.machine.willing hm₀) hop htarget hkind
    (h.noted i op (Nat.lt_succ_self i) hi)
  rw [h.machine.view, hback] at hrun
  obtain ⟨m', s', hs', hview, hcore⟩ := hrun
  have hnote : ∀ j, s'.core.memory.fileNote t.id j =
      if j = i then none else s.core.memory.fileNote t.id j := fun j => by
    rw [Memory.fileNote, hcore]
    exact Captures.get?_erase_index t.id i j s.core.memory.files
  refine ⟨s', hs', ?_, fun j op' hj hop' => ?_, fun j hj => ?_⟩
  · rw [hcore]
    exact h.machine.trans hview
  · rw [hnote, if_neg (by omega)]
    exact h.noted j op' (by omega) hop'
  · rw [hnote]
    split
    · rfl
    · exact h.fresh j (by omega)

/-- The steps of a tweak of file operations. -/
theorem runSteps_files (ht : t.FilesOnly) (e : Engine Machine) :
    e.runSteps t.id .apply t.operations = .ok
      (Engine.stepsFor t.id .apply t.operations.files
        fun slot op => ⟨op.describe, e.runFile slot op⟩) := by
  rw [Engine.runSteps, ht.registry, ht.services, ht.scripts]
  rfl

/-- The restoring steps of a tweak of file operations. -/
theorem restoreSteps_files (ht : t.FilesOnly) (e : Engine Machine) :
    e.restoreSteps t.id t.operations = .ok
      (Engine.stepsFor t.id .apply t.operations.files
        fun slot op => ⟨Engine.undoing "Restore" op.describe, e.restoreFile slot op⟩).reverse := by
  rw [Engine.restoreSteps, ht.registry, ht.services, ht.scripts]
  refine congrArg Except.ok ?_
  simp [Engine.stepsFor]

/-- A run through all operations. -/
theorem runFiles_leads (he : e.mutator = Machine.mutator) (hm₀ : m₀.Willing) (ht : t.FilesOnly)
    (hviews : t.Retraces views) :
    Engine.Leads (fun _ => false)
      (Engine.stepsFor t.id .apply t.operations.files fun slot op => ⟨op.describe, e.runFile slot op⟩)
      (FilesRun t m₀ views 0) (FilesRun t m₀ views t.operations.files.length) fun _ => False :=
  Engine.leads_upward (fun _ _ => nofun) fun i op hi s hs => by
    obtain ⟨note?, s', hs', hnext⟩ := hs.next he hm₀ ht hi (hviews i op hi).1
    dsimp only
    rw [hs']
    exact hnext

/-- A run back through all operations. -/
theorem restoreFiles_leads (he : e.mutator = Machine.mutator) (hm₀ : m₀.Willing) (ht : t.FilesOnly)
    (hviews : t.Retraces views) :
    Engine.Leads (fun _ => false)
      (Engine.stepsFor t.id .apply t.operations.files
        fun slot op => ⟨Engine.undoing "Restore" op.describe, e.restoreFile slot op⟩).reverse
      (FilesRun t m₀ views t.operations.files.length) (FilesRun t m₀ views 0) fun _ => False :=
  Engine.leads_downward (fun _ _ => nofun) fun i op hi s hs => by
    obtain ⟨heffect, hback⟩ := hviews i op hi
    obtain ⟨s', hs', hprev⟩ := hs.back he hm₀ ht hi (by rw [heffect]; exact nofun) hback
    dsimp only
    rw [hs']
    exact hprev

/-- A run back when nothing is noted. -/
theorem restoreFiles_idle (e : Engine Machine) :
    Engine.Leads (fun _ => false)
      (Engine.stepsFor t.id .apply t.operations.files
        fun slot op => ⟨Engine.undoing "Restore" op.describe, e.restoreFile slot op⟩).reverse
      (FilesRun t m₀ views 0) (FilesRun t m₀ views 0) fun _ => False :=
  Engine.leads_downward (I := fun _ => FilesRun t m₀ views 0) (fun _ _ => nofun) fun i op hi s hs => by
    obtain ⟨note, hnote⟩ := Engine.restoreFile_on_none (e := e) op (hs.fresh i (Nat.zero_le i))
    dsimp only
    rw [hnote]
    exact hs

end

/-! ## Calls -/

/-- Nothing is kept of the files of a tweak: nothing is noted, and the store has no snapshot. -/
structure Unkept (t : Tweak) (s : Session Machine) : Prop where
  noted : ∀ i, s.memory.fileNote t.id i = none
  saved : ∀ st, s.store = some st → Assoc.get? t.key st.index = none

/-- The machine of a session and what is captured of it. -/
def Session.scene (s : Session Machine) : Machine × Memory := (s.core.machine, s.core.memory)

section

variable {e : Engine Machine} {t : Tweak} {s : Session Machine} {steps : List (Step Machine)}

/-- Without a snapshot there is nothing to read. -/
theorem loadSnapshot_on_unsaved (h : ∀ st, s.store = some st → Assoc.get? t.key st.index = none) :
    ∃ s', (Engine.loadSnapshot t).on s = (.ok (), s') ∧ s'.core = s.core := by
  cases hstore : s.store with
  | none => exact ⟨s, Engine.loadSnapshot_on_none t hstore, rfl⟩
  | some st =>
    have hcovers : (memoryPart.lift (Act.view fun m => m.covers t) : Work Machine Bool).on s =
        (.ok (s.memory.covers t), s) := rfl
    obtain ⟨s', hs', hcore⟩ := Snapshot.load_on_unlisted (s := s) (h st hstore)
    rw [Engine.loadSnapshot, Act.on_bind, hcovers]
    dsimp only
    split
    · exact ⟨s, rfl, rfl⟩
    · exact ⟨s', withStore_on _ _ _ hstore (by rw [Act.on_discard, hs']; rfl), hcore⟩

/-- When all is captured nothing is read. -/
theorem loadSnapshot_on_covered (h : s.memory.covers t = true) :
    (Engine.loadSnapshot t).on s = (.ok (), s) := by
  have hcovers : (memoryPart.lift (Act.view fun m => m.covers t) : Work Machine Bool).on s =
      (.ok true, s) := by rw [← h]; rfl
  rw [Engine.loadSnapshot, Act.on_bind, hcovers]
  rfl

/-- Writing a snapshot leaves the machine and the captures. -/
theorem keeps_scene_saveSnapshot (t : Tweak) :
    (Engine.saveSnapshot t : Work Machine Unit).Keeps scene := by
  refine Engine.keeps_withStore (fun _ _ _ _ => rfl) _ _ _ fun store => .discard ?_
  unfold Snapshot.save
  refine .bind (fun _ => rfl) fun now => .bind (.view _) fun captures => ?_
  dsimp only
  split
  · exact .bind (fun _ => rfl) fun _ => .pure _
  · exact .bind (fun _ => rfl) fun _ => .bind (fun _ => rfl) fun _ =>
      .bind (fun _ => rfl) fun _ => .bind (fun _ => rfl) fun _ => .pure _

/-- Removing a snapshot leaves the machine and the captures. -/
theorem keeps_scene_deleteSnapshot (t : Tweak) :
    (Engine.deleteSnapshot t : Work Machine Unit).Keeps scene := by
  refine Engine.keeps_withStore (fun _ _ _ _ => rfl) _ _ _ fun store => .discard ?_
  unfold Snapshot.delete
  dsimp only
  split
  · exact .pure _
  · refine .bind (fun _ => rfl) fun _ => .bind (.result _) fun _ => .bind (fun _ => rfl) fun there => ?_
    have hrest : ∀ st : Snapshot.Store, Act.Keeps scene (do
        onHost st.saveIndex
        say .info Snapshot.speaker ("Deleted snapshot for " ++ t.id)
        return true : Work Machine Bool) := fun st =>
      .bind (fun _ => rfl) fun _ => .bind (fun _ => rfl) fun _ => .pure _
    split
    · exact .bind (fun _ => rfl) fun _ => hrest _
    · exact hrest _

/-- A call leaves what its run leaves. -/
theorem Engine.CallDoes.core {μ : Type} {call run : Work μ Result} {s : Session μ}
    (h : Engine.CallDoes call run s) :
    ∃ s₁, s₁.core = s.core ∧ (call.on s).2.core = (run.on s₁).2.core := by
  obtain ⟨s₁, hcore, h⟩ := h
  refine ⟨s₁, hcore, ?_⟩
  revert h
  rcases run.on s₁ with ⟨f | r, s₂⟩ <;> intro h
  · rw [h]
  · obtain ⟨r', s', hcall, hcore', -⟩ := h
    rw [hcall]
    exact hcore'

/-- Applying a tweak that is found applied leaves what looking for it has left. -/
theorem apply_core_applied (cancelled : Session Machine → Bool) {s₀ : Session Machine}
    (hdet : (onHost (e.alreadyApplied t)).on s = (.ok true, s₀)) :
    ((e.apply cancelled t).on s).2.core = s₀.core := by
  have hnow : (onHost Host.now : Work Machine Moment).on s = (.ok s.host.clock, s) := rfl
  rw [Engine.apply, Act.on_bind_of_ok hnow, Act.on_bind_of_ok hdet]
  rfl

/-- Applying a tweak that is not found applied and has no snapshot leaves the machine and the
captures that its steps leave. -/
theorem apply_scene_unapplied (cancelled : Session Machine → Bool) {s₀ : Session Machine}
    (hdet : (onHost (e.alreadyApplied t)).on s = (.ok false, s₀)) (hkept : s₀.core = s.core)
    (hmay : e.mayRun t.operations = true) (hsteps : e.runSteps t.id .apply t.operations = .ok steps)
    (hsaved : ∀ st, s.store = some st → Assoc.get? t.key st.index = none) :
    ∃ s₁, s₁.core = s.core ∧ ((e.apply cancelled t).on s).2.scene =
      ((Engine.execute cancelled steps { success := true, tweakId := t.id }).on s₁).2.scene := by
  obtain ⟨s₁, hcore₁, hcall⟩ := (Engine.apply_does_of cancelled hdet hkept hmay hsteps).core
  obtain ⟨s₂, hs₂, hcore₂⟩ := loadSnapshot_on_unsaved (t := t) (s := s₁) fun st hst =>
    hsaved st ((congrArg Core.store hcore₁).symm.trans hst)
  refine ⟨s₂, hcore₂.trans hcore₁, ?_⟩
  have hscene := congrArg (fun c : Core Machine => (c.machine, c.memory)) hcall
  refine hscene.trans ?_
  show ((Engine.applyRun cancelled steps t).on s₁).2.scene = _
  rw [Engine.applyRun, Act.on_bind, hs₂]
  dsimp only
  rw [Act.on_bind]
  rcases (Engine.execute cancelled steps { success := true, tweakId := t.id }).on s₂ with ⟨f | r, s₃⟩
  · rfl
  · have hsave := keeps_scene_saveSnapshot t s₃
    dsimp only
    rw [Act.on_bind]
    revert hsave
    rcases (Engine.saveSnapshot t).on s₃ with ⟨f | _, s₄⟩ <;> exact id

/-- Applying a tweak without a snapshot leaves the machine and the captures that its steps
leave, unless the tweak is found applied. -/
theorem apply_scene (cancelled : Session Machine → Bool) (hlook : e.ReadOnlyDetector)
    (hmay : e.mayRun t.operations = true) (hsteps : e.runSteps t.id .apply t.operations = .ok steps)
    (hsaved : ∀ st, s.store = some st → Assoc.get? t.key st.index = none) :
    ((e.apply cancelled t).on s).2.core = s.core ∨
      ∃ s₁, s₁.core = s.core ∧ ((e.apply cancelled t).on s).2.scene =
        ((Engine.execute cancelled steps { success := true, tweakId := t.id }).on s₁).2.scene := by
  have hnow : (onHost Host.now : Work Machine Moment).on s = (.ok s.host.clock, s) := rfl
  have hkept := Engine.alreadyApplied_keeps hlook t s
  rcases hdet : (onHost (e.alreadyApplied t)).on s with ⟨f | found, s₀⟩ <;> rw [hdet] at hkept
  · refine .inl ?_
    rw [Engine.apply, Act.on_bind_of_ok hnow, Act.on_bind, hdet]
    exact hkept
  cases found with
  | true => exact .inl ((apply_core_applied cancelled hdet).trans hkept)
  | false => exact .inr (apply_scene_unapplied cancelled hdet hkept hmay hsteps hsaved)

/-- Reverting a tweak whose captures are all known is its restoring steps, after which the
snapshot may be removed and the call is finished. -/
theorem revert_scene (cancelled : Session Machine → Bool)
    (hmay : e.mayRun t.revertOperations = true) (hr : t.isReversible = true)
    (hu : t.undo? = none) (hsteps : e.restoreSteps t.id t.operations = .ok steps)
    (hload : ∀ s₁ : Session Machine, s₁.core = s.core →
      ∃ s₂, (Engine.loadSnapshot t).on s₁ = (.ok (), s₂) ∧ s₂.core = s.core) :
    ∃ s₁, s₁.core = s.core ∧ ((e.revert cancelled t).on s).2.scene =
        ((Engine.execute cancelled steps { success := true, tweakId := t.id }).on s₁).2.scene ∧
      ∀ r, ((e.revert cancelled t).on s).1 = .ok r → ∃ r₀,
        ((Engine.execute cancelled steps { success := true, tweakId := t.id }).on s₁).1 = .ok r₀ ∧
          r.applied = r₀.applied := by
  obtain ⟨s₁, hcore₁, hcall⟩ := Engine.revert_eq cancelled hmay hr hu hsteps s
  obtain ⟨s₂, hs₂, hcore₂⟩ := hload s₁ hcore₁
  refine ⟨s₂, hcore₂, ?_⟩
  rw [hcall, Act.on_bind, Engine.revertRun, Act.on_bind, hs₂]
  dsimp only
  rw [Act.on_bind]
  rcases (Engine.execute cancelled steps { success := true, tweakId := t.id }).on s₂ with ⟨f | r, s₃⟩
  · exact ⟨rfl, fun r hr => by cases hr⟩
  · dsimp only
    cases hclean : r.clean with
    | false => exact ⟨rfl, fun r' hr' => ⟨r, rfl, by rw [← Except.ok.inj hr']⟩⟩
    | true =>
      simp only [if_true]
      have hdelete := keeps_scene_deleteSnapshot t s₃
      rw [Act.on_bind]
      revert hdelete
      rcases (Engine.deleteSnapshot t).on s₃ with ⟨f | _, s₄⟩ <;> intro hdelete
      · exact ⟨hdelete, fun r hr => by cases hr⟩
      · exact ⟨hdelete, fun r' hr' => ⟨r, rfl, by rw [← Except.ok.inj hr']⟩⟩

theorem Tweak.FilesOnly.mayRun (ht : t.FilesOnly) (e : Engine Machine) :
    e.mayRun t.operations = true := by
  simp [Engine.mayRun, OperationSet.requiresElevation, ht.registry, ht.services, ht.scripts]

theorem Tweak.FilesOnly.mayRevert (ht : t.FilesOnly) (e : Engine Machine) :
    e.mayRun t.revertOperations = true := by
  rw [Tweak.revertOperations, ht.withoutUndo]
  exact ht.mayRun e

/-- When all operations have noted something, everything is captured. -/
theorem FilesRun.covers {m₀ : Machine} {views : Nat → FileView} (ht : t.FilesOnly)
    (h : FilesRun t m₀ views t.operations.files.length s.core) : s.memory.covers t = true := by
  rw [Memory.covers, ht.registry, ht.services]
  refine Bool.and_eq_true_iff.mpr ⟨rfl, List.all_eq_true.mpr fun j hj => ?_⟩
  have hj := List.mem_range.mp hj
  have hnote : Assoc.get? ⟨t.id, .apply, j⟩ s.memory.files = some _ :=
    h.noted j _ hj (List.getElem?_eq_getElem hj)
  rw [Assoc.has, hnote]
  rfl

theorem FilesRun.of_scene {m₀ : Machine} {views : Nat → FileView} {i : Nat} {s' : Session Machine}
    (h : FilesRun t m₀ views i s.core) (hscene : s'.scene = s.scene) :
    FilesRun t m₀ views i s'.core := by
  obtain ⟨hmachine, hmemory⟩ := Prod.mk.inj hscene
  exact ⟨hmachine ▸ h.machine, hmemory ▸ h.noted, hmemory ▸ h.fresh⟩

/-- Applying and reverting a tweak whose operations are taken back one after the other. -/
theorem files_retraced {m₀ : Machine} {views : Nat → FileView} (he : e.mutator = Machine.mutator)
    (hlook : e.ReadOnlyDetector) (ht : t.FilesOnly) (hr : t.isReversible = true) (hm₀ : m₀.Willing)
    (hviews : t.Retraces views) (hs : FilesRun t m₀ views 0 s.core)
    (hsaved : ∀ st, s.store = some st → Assoc.get? t.key st.index = none) :
    FilesRun t m₀ views 0
      ((e.revert (fun _ => false) t).on ((e.apply (fun _ => false) t).on s).2).2.core := by
  rcases apply_scene (fun _ => false) hlook (ht.mayRun e) (runSteps_files ht e) hsaved with
    hskipped | ⟨s₁, hcore₁, happly⟩
  · -- the tweak is found applied, and nothing is noted that could be restored
    obtain ⟨s₃, hcore₃, hrevert, -⟩ := revert_scene (fun _ => false) (ht.mayRevert e) hr
      ht.withoutUndo (restoreSteps_files ht e) fun s₁ hs₁ => by
        obtain ⟨s₂, hs₂, hcore₂⟩ := loadSnapshot_on_unsaved (t := t) (s := s₁) fun st hst =>
          hsaved st ((congrArg Core.store (hs₁.trans hskipped)).symm.trans hst)
        exact ⟨s₂, hs₂, hcore₂.trans hs₁⟩
    obtain ⟨r₄, s₄, hback, ⟨-, hnone⟩ | ⟨-, hnot⟩⟩ := restoreFiles_idle e
      { success := true, tweakId := t.id } s₃ rfl (by rw [hcore₃, hskipped]; exact hs)
    · rw [hback] at hrevert
      exact hnone.of_scene hrevert
    · exact hnot.elim
  · have hstart : FilesRun t m₀ views 0 s₁.core := hcore₁ ▸ hs
    obtain ⟨r₂, s₂, hrun, ⟨-, hall⟩ | ⟨-, hnot⟩⟩ :=
      runFiles_leads he hm₀ ht hviews { success := true, tweakId := t.id } s₁ rfl hstart
    · rw [hrun] at happly
      have happlied := hall.of_scene happly
      obtain ⟨s₃, hcore₃, hrevert, -⟩ := revert_scene (fun _ => false) (ht.mayRevert e) hr
        ht.withoutUndo (restoreSteps_files ht e) fun s₁ hs₁ =>
          ⟨s₁, loadSnapshot_on_covered (FilesRun.covers ht (hs₁ ▸ happlied)), hs₁⟩
      obtain ⟨r₄, s₄, hback, ⟨-, hnone⟩ | ⟨-, hnot⟩⟩ :=
        restoreFiles_leads he hm₀ ht hviews { success := true, tweakId := t.id } s₃ rfl
          (hcore₃ ▸ happlied)
      · rw [hback] at hrevert
        exact hnone.of_scene hrevert
      · exact hnot.elim
    · exact hnot.elim

/-- The view after the first operations. -/
def viewAfter (ops : List FileOperation) (x : FileView) (i : Nat) : FileView :=
  (ops.take i).foldl (fun x op => (op.effect x).getD x) x

theorem viewAfter_succ {ops : List FileOperation} {i : Nat} {op : FileOperation}
    (hi : ops[i]? = some op) (x : FileView) :
    viewAfter ops x (i + 1) = (op.effect (viewAfter ops x i)).getD (viewAfter ops x i) := by
  rw [viewAfter, List.take_add_one, hi, List.foldl_append]
  rfl

theorem Engine.afterFiles_succ {ops : List FileOperation} {i : Nat} {op : FileOperation}
    (e : Engine Machine) (id : String) (hi : ops[i]? = some op) (s : Session Machine) :
    e.afterFiles id (ops.take (i + 1)) s =
      ((e.runFile ⟨id, .apply, i⟩ op).on (e.afterFiles id (ops.take i) s)).2 := by
  have hlength : (ops.take i).length = i :=
    List.length_take_of_le (Nat.le_of_lt (List.getElem?_eq_some_iff.mp hi).1)
  rw [afterFiles, List.take_add_one, hi, List.zipIdx_append, List.foldl_append, Nat.zero_add, hlength]
  rfl

/-- Every operation can be taken back in the state in which it runs. -/
def Tweak.InvertibleOn (t : Tweak) (e : Engine Machine) (s : Session Machine) : Prop :=
  ∀ (i : Nat) (op : FileOperation), t.operations.files[i]? = some op →
    op.Invertible (e.afterFiles t.id (t.operations.files.take i) s).core.machine.fileView

/-- When every operation can be taken back as it runs, the operations take the machine through
the views that they make one after the other. -/
theorem afterFiles_run (he : e.mutator = Machine.mutator) (ht : t.FilesOnly)
    (hm : s.core.machine.Willing) (hapart : s.core.machine.fileView.Apart)
    (hnoted : ∀ i, s.memory.fileNote t.id i = none)
    (hinv : t.InvertibleOn e s) (i : Nat) (hi : i ≤ t.operations.files.length) :
    FilesRun t s.core.machine (viewAfter t.operations.files s.core.machine.fileView) i
        (e.afterFiles t.id (t.operations.files.take i) s).core ∧
      (viewAfter t.operations.files s.core.machine.fileView i).Apart := by
  induction i with
  | zero =>
    exact ⟨⟨.refl _, fun j _ hj => absurd hj (Nat.not_lt_zero j), fun j _ => hnoted j⟩, hapart⟩
  | succ i ih =>
    obtain ⟨hrun, hapart⟩ := ih (by omega)
    have hop := List.getElem?_eq_getElem hi
    obtain ⟨y, hy, -, hyapart⟩ := (hrun.machine.view ▸ hinv i _ hop).undone hapart
    have hnext : viewAfter t.operations.files s.core.machine.fileView (i + 1) = y := by
      rw [viewAfter_succ hop, hy, Option.getD_some]
    obtain ⟨note?, s', hs', hrun'⟩ := hrun.next he hm ht hop (by rw [hy, hnext])
    rw [e.afterFiles_succ t.id hop s, hs', hnext]
    exact ⟨hrun', hyapart⟩

end

section

/-- Overwrites a file, renames it, makes a directory in its place, copies this directory, moves
another one to a backup, and deletes the renamed file and makes it anew. -/
def sampleFiling : Tweak :=
  { id := "t"
    name := .text "T"
    operations :=
      { files :=
          [{ path := .text "a", action := .createFile, content := .text "new" },
           { path := .text "a", action := .rename, target := .text "b" },
           { path := .text "a", action := .createDirectory },
           { path := .text "a", action := .copy, target := .text "c" },
           { path := .text "d", action := .delete, backup := .text "e" },
           { path := .text "b", action := .delete },
           { path := .text "b", action := .createFile }] } }

/-- A session on a machine with a file and a directory. -/
def filingSession : Session Machine :=
  { host := { machine := { files := [("a", .text "old")], directories := ["d"] } } }

theorem sampleFiling_filesOnly : sampleFiling.FilesOnly where
  registry := rfl
  services := rfl
  scripts := rfl
  textual := by
    simp only [sampleFiling, List.forall_mem_cons, List.not_mem_nil, false_implies, implies_true,
      and_true]
    exact ⟨⟨⟨_, rfl⟩, .inl rfl, .inl rfl⟩, ⟨⟨_, rfl⟩, .inr ⟨_, rfl⟩, .inl rfl⟩,
      ⟨⟨_, rfl⟩, .inl rfl, .inl rfl⟩, ⟨⟨_, rfl⟩, .inr ⟨_, rfl⟩, .inl rfl⟩,
      ⟨⟨_, rfl⟩, .inl rfl, .inr ⟨_, rfl⟩⟩, ⟨⟨_, rfl⟩, .inl rfl, .inl rfl⟩,
      ⟨⟨_, rfl⟩, .inl rfl, .inl rfl⟩⟩
  withoutUndo := rfl

theorem sampleFiling_invertible :
    sampleFiling.InvertibleOn { mutator := Machine.mutator } filingSession := by
  have hall : ∀ i : Fin sampleFiling.operations.files.length,
      sampleFiling.operations.files[i].Invertible (Engine.afterFiles { mutator := Machine.mutator }
        "t" (sampleFiling.operations.files.take i) filingSession).core.machine.fileView := by
    decide +kernel
  intro i op hi
  obtain ⟨hlt, rfl⟩ := List.getElem?_eq_some_iff.mp hi
  exact hall ⟨i, hlt⟩

theorem filingSession_apart : filingSession.core.machine.fileView.Apart := by
  intro p hp
  by_cases ha : p = "a"
  · rw [ha]
    decide
  · exact absurd (by simp [filingSession, core, Machine.fileView, Assoc.get?, Ne.symm ha]) hp

theorem filingSession_unkept (t : Tweak) : Unkept t filingSession := ⟨fun _ => rfl, nofun⟩

/-- Makes a file, and is not to be reverted. -/
def irreversibleFiling : Tweak :=
  { id := "t"
    name := .text "T"
    isReversible := false
    operations := { files := [{ path := .text "b", action := .createFile }] } }

end
end TweakEngine
