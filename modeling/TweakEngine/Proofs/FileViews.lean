/-
# Files by path

File operations look at the files and directories of a machine by path, and so does a
`FileView`: which path has a file with which text, and which one is a directory.  A write to
a file rearranges the view and leaves the rest of the machine alone (`Machine.Rearranged`).
On a machine that refuses nothing, running an operation makes `FileOperation.effect` of the
view and notes `FileOperation.noteOf`, and restoring it from a note makes
`FileOperation.undone` of the view.
-/

import TweakEngine.Proofs.OtherSteps
import TweakEngine.Proofs.Spots
import Mathlib.Logic.Function.Basic

namespace TweakEngine

open Session

/-- Files with their texts and directories, by path. -/
structure FileView where
  files : String → Option Datum
  directories : String → Bool

namespace FileView

/-- Whether there is a file or directory at a path. -/
def taken (x : FileView) (p : String) : Bool := (x.files p).isSome || x.directories p

/-- The text of a file, or null. -/
def text (x : FileView) (p : String) : Datum := (x.files p).getD .null

/-- What there is at a path: a file with its text, and whether there is a directory. -/
def atPath (x : FileView) (p : String) : Option Datum × Bool := (x.files p, x.directories p)

/-- The view after a file is written. -/
def writing (x : FileView) (p : String) (content : Datum) : FileView :=
  { x with files := Function.update x.files p (some content) }

/-- The view after a directory is made. -/
def making (x : FileView) (p : String) : FileView :=
  { x with directories := Function.update x.directories p true }

/-- The view after a path is cleared. -/
def clearing (x : FileView) (p : String) : FileView :=
  ⟨Function.update x.files p none, Function.update x.directories p false⟩

/-- The view after the file at a path, or else the directory, is copied to another path. -/
def copying (x : FileView) (p q : String) : FileView :=
  match x.files p with
  | some content => x.writing q content
  | none => x.making q

/-- The view after the file at a path, or else the directory, is moved to another path. -/
def moving (x : FileView) (p q : String) : FileView :=
  match x.files p with
  | some content =>
    { x with files := Function.update (Function.update x.files p none) q (some content) }
  | none =>
    { x with directories := Function.update (Function.update x.directories p false) q true }

end FileView

namespace Machine

/-- The files and directories of a machine. -/
def fileView (m : Machine) : FileView := ⟨fun p => Assoc.get? p m.files, m.directories.contains⟩

/-- The second machine differs from the first at most in its files and directories, which are
those of a view. -/
structure Rearranged (m m' : Machine) (x : FileView) : Prop where
  settings : m'.settings = m.settings
  keys : m'.keys = m.keys
  services : m'.services = m.services
  view : m'.fileView = x

variable {m m' m'' : Machine} {x y : FileView} {p q : String}

namespace Rearranged

theorem refl (m : Machine) : m.Rearranged m m.fileView := ⟨rfl, rfl, rfl, rfl⟩

theorem trans (h : m.Rearranged m' x) (h' : m'.Rearranged m'' y) : m.Rearranged m'' y :=
  ⟨h'.settings.trans h.settings, h'.keys.trans h.keys, h'.services.trans h.services, h'.view⟩

/-- A machine on which files and directories are what they were is the same. -/
theorem same (h : m.Rearranged m' m.fileView) : m.Same m' where
  keys k := by rw [hasKey, hasKey, h.keys]
  values k n := by rw [stored, stored, h.keys]
  services n := by rw [h.services]
  files p := congrFun (congrArg FileView.files h.view) p
  directories p := by
    have hp : m'.directories.contains p = m.directories.contains p :=
      congrFun (congrArg FileView.directories h.view) p
    rw [← List.contains_iff_mem, ← List.contains_iff_mem, hp]

theorem willing (h : m.Rearranged m' x) (hm : m.Willing) : m'.Willing := hm.of_settings h.settings

end Rearranged

theorem hasPath_text (m : Machine) (p : String) : m.hasPath (.text p) = .ok (m.fileView.taken p) :=
  rfl

theorem fileText_text (m : Machine) (p : String) : m.fileText (.text p) = m.fileView.text p := rfl

theorem files_put (m : Machine) (p : String) (content : Datum) :
    (fun q => Assoc.get? q (Assoc.put p content m.files)) =
      Function.update m.fileView.files p (some content) := by
  funext q
  rw [Assoc.get?_put, Function.update_apply]
  simp only [eq_comm (a := q)]
  rfl

theorem files_erase (m : Machine) (p : String) :
    (fun q => Assoc.get? q (Assoc.erase p m.files)) = Function.update m.fileView.files p none := by
  funext q
  rw [Assoc.get?_erase, Function.update_apply]
  simp only [eq_comm (a := q)]
  rfl

theorem directories_filter (m : Machine) (p : String) :
    (m.directories.filter (· ≠ p)).contains = Function.update m.fileView.directories p false := by
  funext q
  rw [contains_filter_ne, Function.update_apply]
  simp only [eq_comm (a := q)]
  rfl

theorem addDirectory_view (m : Machine) (p : String) :
    (m.addDirectory p).fileView = m.fileView.making p := by
  refine congrArg (FileView.mk _) (funext fun q => ?_)
  refine (List.contains_append ..).trans ?_
  rw [contains_filter_ne, Function.update_apply]
  by_cases h : q = p
  · simp [h]
  · have h' : p ≠ q := fun e => h e.symm
    simp [h, h', fileView]

/-! ## Writes -/

theorem apply_writeFile (m : Machine) (p : String) (content : Datum) (create : Bool) :
    ∃ m', m.apply (.writeFile (.text p) content create) = .ok ((), m') ∧
      m.Rearranged m' (m.fileView.writing p content) :=
  ⟨_, rfl, rfl, rfl, rfl, congrArg (FileView.mk · _) (m.files_put p content)⟩

theorem apply_createDirectory (m : Machine) (p : String) :
    ∃ m', m.apply (.createDirectory (.text p)) = .ok ((), m') ∧
      m.Rearranged m' (m.fileView.making p) :=
  ⟨_, rfl, rfl, rfl, rfl, m.addDirectory_view p⟩

theorem apply_deletePath (h : m.fileView.taken p = true) :
    ∃ m', m.apply (.deletePath (.text p)) = .ok ((), m') ∧
      m.Rearranged m' (m.fileView.clearing p) := by
  have hthere : (Assoc.has p m.files || m.directories.contains p) = true := h
  simp only [apply, removePath, hthere, if_true]
  exact ⟨_, rfl, rfl, rfl, rfl, congr (congrArg FileView.mk (m.files_erase p)) (m.directories_filter p)⟩

theorem apply_copyPath (h : m.fileView.taken p = true) (q : String) :
    ∃ m', m.apply (.copyPath (.text p) (.text q)) = .ok ((), m') ∧
      m.Rearranged m' (m.fileView.copying p q) := by
  cases hp : Assoc.get? p m.files with
  | some content =>
    have hview : m.fileView.copying p q = m.fileView.writing q content := by
      rw [FileView.copying, show m.fileView.files p = some content from hp]
    simp only [apply, duplicate, textOf, bind, Except.bind, hp, hview]
    exact ⟨_, rfl, rfl, rfl, rfl, congrArg (FileView.mk · _) (m.files_put q content)⟩
  | none =>
    have hview : m.fileView.copying p q = m.fileView.making q := by
      rw [FileView.copying, show m.fileView.files p = none from hp]
    have hdir : p ∈ m.directories := by simpa [FileView.taken, fileView, hp] using h
    simp only [apply, duplicate, textOf, bind, Except.bind, hp, hview, List.contains_iff_mem, hdir,
      if_true]
    exact ⟨_, rfl, rfl, rfl, rfl, m.addDirectory_view q⟩

theorem apply_movePath (h : m.fileView.taken p = true) (q : String) :
    ∃ m', m.apply (.movePath (.text p) (.text q)) = .ok ((), m') ∧
      m.Rearranged m' (m.fileView.moving p q) := by
  cases hp : Assoc.get? p m.files with
  | some content =>
    have hview : m.fileView.moving p q = { m.fileView with
        files := Function.update (Function.update m.fileView.files p none) q (some content) } := by
      rw [FileView.moving, show m.fileView.files p = some content from hp]
    simp only [apply, relocate, textOf, bind, Except.bind, hp, hview, ← m.files_erase p]
    exact ⟨_, rfl, rfl, rfl, rfl,
      congrArg (FileView.mk · _) (files_put { m with files := Assoc.erase p m.files } q content)⟩
  | none =>
    have hview : m.fileView.moving p q = { m.fileView with
        directories := Function.update (Function.update m.fileView.directories p false) q true } := by
      rw [FileView.moving, show m.fileView.files p = none from hp]
    have hdir : p ∈ m.directories := by simpa [FileView.taken, fileView, hp] using h
    simp only [apply, relocate, textOf, bind, Except.bind, hp, hview, List.contains_iff_mem, hdir,
      if_true, ← m.directories_filter p]
    exact ⟨_, rfl, rfl, rfl, rfl,
      addDirectory_view { m with directories := m.directories.filter (· ≠ p) } q⟩

/-- A write to a path at which there is nothing is refused. -/
theorem apply_missing (h : m.fileView.taken p = false) {w : Write}
    (hw : w = .deletePath (.text p) ∨ ∃ q, w = .movePath (.text p) (.text q) ∨
      w = .copyPath (.text p) (.text q)) : ∃ f, m.apply w = .error f := by
  obtain ⟨hfile, hdir⟩ := Bool.or_eq_false_iff.mp h
  have hfile : Assoc.get? p m.files = none := by simpa [fileView] using hfile
  have hdir : p ∉ m.directories := by simpa [fileView] using hdir
  rcases hw with rfl | ⟨q, rfl | rfl⟩
  · simp only [apply, removePath, Assoc.has, hfile, Option.isSome_none, Bool.false_or,
      List.contains_iff_mem, hdir, if_false]
    exact ⟨_, rfl⟩
  · simp only [apply, relocate, textOf, bind, Except.bind, hfile, List.contains_iff_mem, hdir,
      if_false]
    exact ⟨_, rfl⟩
  · simp only [apply, duplicate, textOf, bind, Except.bind, hfile, List.contains_iff_mem, hdir,
      if_false]
    exact ⟨_, rfl⟩

end Machine

/-! ## Operations -/

namespace FileOperation

/-- The text of a file that is created. -/
def written (op : FileOperation) : Datum := if op.content.truthy then op.content else .text ""

/-- What running an operation makes of a view; nothing when it fails. -/
def effect (op : FileOperation) (x : FileView) : Option FileView :=
  match op.action with
  | .createFile => some (x.writing op.path.display op.written)
  | .createDirectory => some (x.making op.path.display)
  | .delete => some <|
    if x.taken op.path.display then
      (if op.backup.truthy then x.copying op.path.display op.backup.display else x).clearing
        op.path.display
    else x
  | .rename =>
    if op.target.truthy && x.taken op.path.display then
      some (x.moving op.path.display op.target.display)
    else none
  | .copy =>
    if op.target.truthy && x.taken op.path.display then
      some (x.copying op.path.display op.target.display)
    else none
  | .setAttributes | .takeOwnership => none

/-- What is noted of a view before an operation runs. -/
def noteOf (op : FileOperation) (x : FileView) : FileCapture :=
  match op.action with
  | .rename | .copy => ⟨x.taken op.target.display, .null⟩
  | .createDirectory => ⟨x.taken op.path.display, .null⟩
  | _ => ⟨x.taken op.path.display, x.text op.path.display⟩

/-- What restoring an operation from a note makes of a view; nothing when it fails. -/
def undone (op : FileOperation) (c : FileCapture) (x : FileView) : Option FileView :=
  match op.action with
  | .delete =>
    if c.existed && op.backup.truthy && x.taken op.backup.display then
      some (x.moving op.backup.display op.path.display)
    else if c.existed then
      if c.content.isNull then none else some (x.writing op.path.display c.content)
    else some x
  | .createFile =>
    if !c.existed then
      if x.taken op.path.display then some (x.clearing op.path.display) else none
    else if !c.content.isNull then some (x.writing op.path.display c.content)
    else some x
  | .createDirectory =>
    some (if !c.existed && x.taken op.path.display then x.clearing op.path.display else x)
  | .rename =>
    some (if x.taken op.target.display then x.moving op.target.display op.path.display else x)
  | .copy =>
    some (if !c.existed && x.taken op.target.display then x.clearing op.target.display else x)
  | .setAttributes | .takeOwnership => some x

end FileOperation

theorem Datum.IsText.eq_display {d : Datum} (h : d.IsText) : d = .text d.display := by
  obtain ⟨s, rfl⟩ := h
  rfl

theorem FileView.taken_copying {x : FileView} {p : String} (h : x.taken p = true) (q : String) :
    (x.copying p q).taken p = true := by
  unfold copying
  cases hp : x.files p with
  | some content =>
    by_cases hq : p = q <;> simp [taken, writing, hp, hq]
  | none =>
    have hdir : x.directories p = true := by simpa [taken, hp] using h
    by_cases hq : p = q <;> simp [taken, making, hdir, hq]

namespace Engine

variable {e : Engine Machine} {s : Session Machine} {slot : Slot} {op : FileOperation}

/-- A core in which a file operation has noted something. -/
def notedFile (c : Core Machine) (slot : Slot) (n : FileCapture) : Core Machine :=
  { c with memory := { c.memory with files := Assoc.put slot n c.memory.files } }

/-- A core in which the note of a file operation is struck out. -/
def struckFile (c : Core Machine) (slot : Slot) : Core Machine :=
  { c with memory := { c.memory with files := Assoc.erase slot c.memory.files } }

theorem pathExists_on (he : e.mutator = Machine.mutator) (hm : s.core.machine.Willing) (p : String) :
    (onHost (e.mutator.pathExists (.text p))).on s = (.ok (s.core.machine.fileView.taken p), s) := by
  have hexists : e.mutator.pathExists = Machine.pathExists := by rw [he]; rfl
  rw [hexists, Machine.pathExists, ask_on hm, Machine.hasPath_text]

theorem readText_on (he : e.mutator = Machine.mutator) (hm : s.core.machine.Willing) (p : String) :
    (onHost (e.mutator.readText (.text p))).on s = (.ok (s.core.machine.fileView.text p), s) := by
  have hread : e.mutator.readText = Machine.readText := by rw [he]; rfl
  rw [hread, Machine.readText, ask_on hm, Machine.fileText_text]

theorem write_performs (he : e.mutator = Machine.mutator) (hm : s.core.machine.Willing)
    (w : Write) : ∃ s', (e.write w).on s = (Prod.fst <$> s.core.machine.apply w, s') ∧
      s'.core = { s.core with
        machine := ((Prod.snd <$> s.core.machine.apply w).toOption.getD s.core.machine) } := by
  have hperform : e.write w = onHost (Machine.perform w) := by rw [write, he]; rfl
  rw [hperform]
  exact perform_on hm w

theorem write_on (he : e.mutator = Machine.mutator) (hm : s.core.machine.Willing) {w : Write}
    {x : w.Reply} {m' : Machine} (hw : s.core.machine.apply w = .ok (x, m')) :
    ∃ s', (e.write w).on s = (.ok x, s') ∧ s'.core = { s.core with machine := m' } := by
  obtain ⟨s', hs', hcore⟩ := write_performs he hm w
  rw [hw] at hs' hcore
  exact ⟨s', hs', hcore⟩

theorem write_on_error (he : e.mutator = Machine.mutator) (hm : s.core.machine.Willing) {w : Write}
    {f : Failure} (hw : s.core.machine.apply w = .error f) :
    ∃ s', (e.write w).on s = (.error f, s') ∧ s'.core = s.core := by
  obtain ⟨s', hs', hcore⟩ := write_performs he hm w
  rw [hw] at hs' hcore
  exact ⟨s', hs', hcore⟩

/-- An action that leaves the files and directories of a view, or fails. -/
def Rearranges {α : Type} (a : Work Machine α) (s : Session Machine) : Option FileView → Prop
  | some y => ∃ x m' s', a.on s = (.ok x, s') ∧ s.core.machine.Rearranged m' y ∧
      s'.core = { s.core with machine := m' }
  | none => ∃ f s', a.on s = (.error f, s')

theorem rearranges_pure {α : Type} (x : α) (s : Session Machine) :
    Rearranges (pure x : Work Machine α) s (some s.core.machine.fileView) :=
  ⟨x, s.core.machine, s, rfl, .refl _, rfl⟩

theorem rearranges_write (he : e.mutator = Machine.mutator) (hm : s.core.machine.Willing) {w : Write}
    {y : FileView} {x : w.Reply}
    (h : ∃ m', s.core.machine.apply w = .ok (x, m') ∧ s.core.machine.Rearranged m' y) :
    Rearranges (e.write w) s (some y) := by
  obtain ⟨m', hw, hview⟩ := h
  obtain ⟨s', hs', hcore⟩ := write_on he hm hw
  exact ⟨_, m', s', hs', hview, hcore⟩

/-- One action after another. -/
theorem Rearranges.bind {α β : Type} {a : Work Machine α} {k : α → Work Machine β} {y z : FileView}
    (hm : s.core.machine.Willing) (h : Rearranges a s (some y))
    (hk : ∀ x s', s'.core.machine.Willing → s'.core.machine.fileView = y →
      Rearranges (k x) s' (some z)) : Rearranges (a >>= k) s (some z) := by
  obtain ⟨x, m', s', hs', hview, hcore⟩ := h
  have hm' : s'.core.machine = m' := by rw [hcore]
  subst hm'
  obtain ⟨x', m'', s'', hs'', hview', hcore'⟩ := hk x s' (hview.willing hm) hview.view
  refine ⟨x', m'', s'', ?_, hview.trans hview', by rw [hcore', hcore]⟩
  rw [Act.on_bind, hs']
  exact hs''

/-- An action with nothing after it than what it returns. -/
theorem Rearranges.returning {α β : Type} {a : Work Machine α} {y : FileView}
    (hm : s.core.machine.Willing) (h : Rearranges a s (some y)) (x : β) :
    Rearranges (a >>= fun _ => pure x) s (some y) :=
  h.bind hm fun _ s' _ hview => hview ▸ rearranges_pure x s'

/-- What follows a first note leaves the note and the files and directories of a view. -/
theorem rearranges_afterNote {α β : Type} {a : Work Machine α} {k : α → Work Machine β} {x : α}
    {s₁ : Session Machine} {n : FileCapture} {y : FileView} (ha : a.on s = (.ok x, s₁))
    (hcore₁ : s₁.core = notedFile s.core slot n) (h : Rearranges (k x) s₁ (some y)) :
    ∃ x' m' s', (a >>= k).on s = (.ok x', s') ∧ s.core.machine.Rearranged m' y ∧
      s'.core = { notedFile s.core slot n with machine := m' } := by
  obtain ⟨x', m', s', hs', hview, hcore⟩ := h
  rw [hcore₁] at hview hcore
  refine ⟨x', m', s', ?_, hview, hcore⟩
  rw [Act.on_bind, ha]
  exact hs'

/-- A first capture of a file. -/
theorem captureFirst_on (hnew : Assoc.get? slot s.memory.files = none) (c : FileCapture) :
    ∃ s', (capture filesPart slot c).on s = (.ok true, s') ∧ s'.core = notedFile s.core slot c := by
  refine ⟨filesPart.set (Assoc.put slot c s.memory.files) s, ?_, rfl⟩
  have hkeep : Captures.keep slot c (filesPart.get s) = (Assoc.put slot c s.memory.files, true) := by
    have hget : Assoc.get? slot (filesPart.get s) = none := hnew
    rw [Captures.keep, hget]
    rfl
  rw [capture, Part.on_lift, Act.on_of, hkeep]

/-- Capturing what is at the path of an operation. -/
theorem captureFile_on (he : e.mutator = Machine.mutator) (hm : s.core.machine.Willing)
    (hop : op.path.IsText) (hnew : Assoc.get? slot s.memory.files = none) {n : FileCapture}
    (hn : n = ⟨s.core.machine.fileView.taken op.path.display,
      if op.action = .createDirectory then .null
      else s.core.machine.fileView.text op.path.display⟩) :
    ∃ s', (e.captureFile slot op).on s =
        (.ok (s.core.machine.fileView.taken op.path.display, true), s') ∧
      s'.core = notedFile s.core slot n := by
  obtain ⟨s', hs', hcore⟩ := captureFirst_on hnew n
  refine ⟨s', ?_, hcore⟩
  have hrest : ∀ existed content, n = ⟨existed, content⟩ → (do
      let kept ← capture filesPart slot ⟨existed, content⟩
      return (existed, kept) : Work Machine _).on s = (.ok (existed, true), s') := by
    rintro existed content rfl
    rw [Act.on_bind, hs']
    rfl
  have hthere := pathExists_on he hm op.path.display
  have hread := readText_on he hm op.path.display
  rw [← hop.eq_display] at hthere hread
  rw [captureFile, Act.on_bind, hthere]
  dsimp only
  by_cases ha : op.action = .createDirectory
  · simp only [ha, ne_eq, not_true_eq_false, decide_false, Bool.and_false, Bool.false_eq_true,
      if_false, pure_bind]
    exact hrest _ _ (by rw [hn, if_pos ha])
  · cases ht : s.core.machine.fileView.taken op.path.display with
    | true =>
      simp only [ha, ne_eq, not_false_eq_true, decide_true, Bool.and_true, if_true]
      rw [Act.on_bind, hread]
      exact hrest _ _ (by rw [hn, if_neg ha, ht])
    | false =>
      have hfile := (Bool.or_eq_false_iff.mp ht).1
      rw [Option.isSome_eq_false_iff, Option.isNone_iff_eq_none] at hfile
      simp only [Bool.false_and, Bool.false_eq_true, if_false, pure_bind]
      refine hrest _ _ ?_
      rw [hn, if_neg ha, ht, FileView.text, hfile, Option.getD_none]

/-- Moving or copying what is at a path to a target, by a write that makes `y` of the view. -/
theorem runTransfer_on (he : e.mutator = Machine.mutator) (hm : s.core.machine.Willing)
    (hop : op.Textual) (hnew : Assoc.get? slot s.memory.files = none)
    (ha : op.action = .rename ∨ op.action = .copy) {w : Write} {y : FileView}
    (hthere : s.core.machine.fileView.taken op.path.display = true → op.target.IsText →
      ∃ x m', s.core.machine.apply w = .ok (x, m') ∧ s.core.machine.Rearranged m' y)
    (hmissing : s.core.machine.fileView.taken op.path.display = false → op.target.IsText →
      ∃ f, s.core.machine.apply w = .error f) :
    match (if op.target.truthy && s.core.machine.fileView.taken op.path.display then some y
      else none) with
    | some y => ∃ note? m' s', (e.runTransfer slot op w).on s = (.ok note?, s') ∧
        s.core.machine.Rearranged m' y ∧
        s'.core = { notedFile s.core slot (op.noteOf s.core.machine.fileView) with machine := m' }
    | none => ((e.runTransfer slot op w).on s).2.core.machine = s.core.machine := by
  cases htarget : op.target.truthy with
  | false =>
    rw [runTransfer, htarget]
    rfl
  | true =>
    have hq := hop.target.isText htarget
    have hnote : op.noteOf s.core.machine.fileView =
        ⟨s.core.machine.fileView.taken op.target.display, .null⟩ := by
      rcases ha with ha | ha <;> rw [FileOperation.noteOf, ha]
    obtain ⟨s₁, hs₁, hcore₁⟩ := captureFirst_on hnew (op.noteOf s.core.machine.fileView)
    have hm₁ : s₁.core.machine = s.core.machine := by rw [hcore₁]; rfl
    have htaken := pathExists_on he hm op.target.display
    rw [← hq.eq_display] at htaken
    have hrun : (e.runTransfer slot op w).on s =
        (do discard (e.write w); return (none : Option String)).on s₁ := by
      rw [runTransfer, htarget]
      simp only [Bool.not_true, Bool.false_eq_true, if_false]
      rw [Act.on_bind, htaken]
      dsimp only
      rw [Act.discard_bind, Act.on_bind, ← hnote, hs₁]
    rw [hrun, Act.discard_bind, Act.on_bind]
    cases ht : s.core.machine.fileView.taken op.path.display with
    | true =>
      obtain ⟨x, m', hw, hview⟩ := hthere ht hq
      obtain ⟨s₂, hs₂, hcore₂⟩ := write_on he (hm₁ ▸ hm) (hm₁ ▸ hw)
      rw [hs₂]
      exact ⟨none, m', s₂, rfl, hview, by rw [hcore₂, hcore₁]⟩
    | false =>
      obtain ⟨f, hw⟩ := hmissing ht hq
      obtain ⟨s₂, hs₂, hcore₂⟩ := write_on_error he (hm₁ ▸ hm) (hm₁ ▸ hw)
      rw [hs₂]
      exact (congrArg Core.machine hcore₂).trans hm₁

/-- Deleting what is at the path of an operation, with a backup of it where one is asked for. -/
theorem backedDelete_rearranges (he : e.mutator = Machine.mutator) (hm : s.core.machine.Willing)
    (hop : op.Textual) :
    Rearranges (do
      if !s.core.machine.fileView.taken op.path.display then return some "path not found"
      if op.backup.truthy && true then e.write (.copyPath op.path op.backup)
      e.write (.deletePath op.path)
      return (none : Option String)) s
      (some (if s.core.machine.fileView.taken op.path.display then
        (if op.backup.truthy then
          s.core.machine.fileView.copying op.path.display op.backup.display
        else s.core.machine.fileView).clearing op.path.display
      else s.core.machine.fileView)) := by
  have hdelete : ∀ s' : Session Machine, s'.core.machine.Willing →
      s'.core.machine.fileView.taken op.path.display = true →
      Rearranges (do e.write (.deletePath op.path); return (none : Option String)) s'
        (some (s'.core.machine.fileView.clearing op.path.display)) := by
    intro s' hm' ht'
    rw [hop.path.eq_display]
    exact (rearranges_write he hm' (Machine.apply_deletePath ht')).returning hm' none
  cases ht : s.core.machine.fileView.taken op.path.display with
  | false => exact rearranges_pure (some "path not found") s
  | true =>
    cases hb : op.backup.truthy with
    | false => exact hdelete s hm ht
    | true =>
      have hcopy : Rearranges (e.write (.copyPath op.path op.backup)) s
          (some (s.core.machine.fileView.copying op.path.display op.backup.display)) := by
        rw [hop.path.eq_display, (hop.backup.isText hb).eq_display]
        exact rearranges_write he hm (Machine.apply_copyPath ht _)
      refine hcopy.bind hm fun _ s' hm' hview => ?_
      have ht' : s'.core.machine.fileView.taken op.path.display = true :=
        hview ▸ FileView.taken_copying ht _
      exact hview ▸ hdelete s' hm' ht'

/-- Running a file operation that has noted nothing yet: it notes what is there and changes
files and directories, or it fails and changes none. -/
theorem runFile_on (he : e.mutator = Machine.mutator) (hm : s.core.machine.Willing)
    (hop : op.Textual) (hnew : Assoc.get? slot s.memory.files = none) :
    match op.effect s.core.machine.fileView with
    | some y => ∃ note? m' s', (e.runFile slot op).on s = (.ok note?, s') ∧
        s.core.machine.Rearranged m' y ∧
        s'.core = { notedFile s.core slot (op.noteOf s.core.machine.fileView) with machine := m' }
    | none => ((e.runFile slot op).on s).2.core.machine = s.core.machine := by
  have hcapture := fun n => captureFile_on (n := n) he hm hop.path hnew
  unfold FileOperation.effect runFile
  cases ha : op.action with
  | setAttributes | takeOwnership => rfl
  | createFile =>
    obtain ⟨s₁, hs₁, hcore₁⟩ := hcapture (op.noteOf s.core.machine.fileView)
      (by simp only [FileOperation.noteOf, ha, reduceCtorEq, if_false])
    have hm₁ : s₁.core.machine = s.core.machine := by rw [hcore₁]; rfl
    dsimp only
    rw [Act.discard_bind, hop.path.eq_display]
    refine rearranges_afterNote hs₁ hcore₁ ?_
    rw [← hm₁] at hm ⊢
    exact (rearranges_write he hm (Machine.apply_writeFile ..)).returning hm none
  | createDirectory =>
    obtain ⟨s₁, hs₁, hcore₁⟩ := hcapture (op.noteOf s.core.machine.fileView)
      (by simp only [FileOperation.noteOf, ha, if_true])
    have hm₁ : s₁.core.machine = s.core.machine := by rw [hcore₁]; rfl
    dsimp only
    rw [Act.discard_bind, hop.path.eq_display]
    refine rearranges_afterNote hs₁ hcore₁ ?_
    rw [← hm₁] at hm ⊢
    exact (rearranges_write he hm (Machine.apply_createDirectory ..)).returning hm none
  | delete =>
    obtain ⟨s₁, hs₁, hcore₁⟩ := hcapture (op.noteOf s.core.machine.fileView)
      (by simp only [FileOperation.noteOf, ha, reduceCtorEq, if_false])
    have hm₁ : s₁.core.machine = s.core.machine := by rw [hcore₁]; rfl
    dsimp only
    refine rearranges_afterNote hs₁ hcore₁ ?_
    rw [← hm₁] at hm ⊢
    exact backedDelete_rearranges he hm hop
  | rename =>
    refine runTransfer_on he hm hop hnew (.inl ha) (fun ht hq => ?_) fun ht hq => ?_
    · rw [hop.path.eq_display, hq.eq_display]
      exact ⟨(), Machine.apply_movePath ht _⟩
    · rw [hop.path.eq_display, hq.eq_display]
      exact Machine.apply_missing ht (.inr ⟨_, .inl rfl⟩)
  | copy =>
    refine runTransfer_on he hm hop hnew (.inr ha) (fun ht hq => ?_) fun ht hq => ?_
    · rw [hop.path.eq_display, hq.eq_display]
      exact ⟨(), Machine.apply_copyPath ht _⟩
    · rw [hop.path.eq_display, hq.eq_display]
      exact Machine.apply_missing ht (.inr ⟨_, .inr rfl⟩)

/-- Acting on a path only when it is taken. -/
theorem rearranges_ifTaken (he : e.mutator = Machine.mutator) (hm : s.core.machine.Willing)
    {path : Datum} (hp : path.IsText) {k : Bool → Work Machine Unit} {y : Option FileView}
    (hk : Rearranges (k (s.core.machine.fileView.taken path.display)) s y) :
    Rearranges (onHost (e.mutator.pathExists path) >>= k) s y := by
  have hthere := pathExists_on he hm path.display
  rw [← hp.eq_display] at hthere
  have hrun : (onHost (e.mutator.pathExists path) >>= k).on s =
      (k (s.core.machine.fileView.taken path.display)).on s := by rw [Act.on_bind, hthere]
  cases y <;> simpa only [Rearranges, hrun] using hk

/-- Deleting what has come to a path at which there was nothing. -/
theorem deleteNew_rearranges (he : e.mutator = Machine.mutator) (hm : s.core.machine.Willing)
    {path : Datum} (hp : path.IsText) (existed : Bool) :
    Rearranges (do
      if !existed then
        if ← onHost (e.mutator.pathExists path) then e.write (.deletePath path)) s
      (some (if !existed && s.core.machine.fileView.taken path.display then
        s.core.machine.fileView.clearing path.display else s.core.machine.fileView)) := by
  cases existed with
  | true => exact rearranges_pure () s
  | false =>
    refine rearranges_ifTaken he hm hp ?_
    cases ht : s.core.machine.fileView.taken path.display with
    | false => exact rearranges_pure () s
    | true =>
      rw [hp.eq_display]
      exact rearranges_write he hm (Machine.apply_deletePath ht)

/-- Undoing a deletion. -/
theorem undelete_rearranges (he : e.mutator = Machine.mutator) (hm : s.core.machine.Willing)
    (hop : op.Textual) (ha : op.action = .delete) (c : FileCapture) :
    Rearranges (e.undelete op c) s (op.undone c s.core.machine.fileView) := by
  have hcontents : Rearranges (do
      if c.existed then
        if c.content.isNull then
          throw (.refused
            ("Content of " ++ op.path.display ++ " was not captured and cannot be restored"))
        e.write (.writeFile op.path c.content op.createDirectories)) s
      (if c.existed then
        if c.content.isNull then none
        else some (s.core.machine.fileView.writing op.path.display c.content)
      else some s.core.machine.fileView) := by
    split
    · split
      · exact ⟨_, _, rfl⟩
      · rw [hop.path.eq_display]
        exact rearranges_write he hm (Machine.apply_writeFile ..)
    · exact rearranges_pure () s
  rw [FileOperation.undone, ha, undelete]
  dsimp only
  cases hb : c.existed && op.backup.truthy with
  | false => exact hcontents
  | true =>
    refine rearranges_ifTaken he hm (hop.backup.isText (Bool.and_eq_true_iff.mp hb).2) ?_
    cases ht : s.core.machine.fileView.taken op.backup.display with
    | false => exact hcontents
    | true =>
      rw [hop.path.eq_display, (hop.backup.isText (Bool.and_eq_true_iff.mp hb).2).eq_display]
      exact rearranges_write he hm (Machine.apply_movePath ht _)

/-- Undoing a file operation by a note. -/
theorem undoFile_rearranges (he : e.mutator = Machine.mutator) (hm : s.core.machine.Willing)
    (hop : op.Textual) (htarget : op.action = .rename ∨ op.action = .copy → op.target.IsText)
    (c : FileCapture) : Rearranges (e.undoFile op c) s (op.undone c s.core.machine.fileView) := by
  unfold undoFile
  cases ha : op.action with
  | setAttributes | takeOwnership =>
    rw [FileOperation.undone, ha]
    exact rearranges_pure () s
  | delete => exact undelete_rearranges he hm hop ha c
  | createDirectory =>
    rw [FileOperation.undone, ha]
    exact deleteNew_rearranges he hm hop.path c.existed
  | copy =>
    rw [FileOperation.undone, ha]
    exact deleteNew_rearranges he hm (htarget (.inr ha)) c.existed
  | rename =>
    rw [FileOperation.undone, ha]
    refine rearranges_ifTaken he hm (htarget (.inl ha)) ?_
    cases ht : s.core.machine.fileView.taken op.target.display with
    | false => exact rearranges_pure () s
    | true =>
      rw [hop.path.eq_display, (htarget (.inl ha)).eq_display]
      exact rearranges_write he hm (Machine.apply_movePath ht _)
  | createFile =>
    rw [FileOperation.undone, ha]
    dsimp only
    split
    · cases ht : s.core.machine.fileView.taken op.path.display with
      | false =>
        obtain ⟨f, hw⟩ := Machine.apply_missing ht (.inl rfl)
        obtain ⟨s', hs', -⟩ := write_on_error he hm hw
        rw [hop.path.eq_display]
        exact ⟨f, s', hs'⟩
      | true =>
        rw [hop.path.eq_display]
        exact rearranges_write he hm (Machine.apply_deletePath ht)
    · split
      · rw [hop.path.eq_display]
        exact rearranges_write he hm (Machine.apply_writeFile ..)
      · exact rearranges_pure () s

/-- Without a note nothing is restored. -/
theorem restoreFile_on_none (op : FileOperation) (hc : Assoc.get? slot s.memory.files = none) :
    ∃ note, (e.restoreFile slot op).on s = (.ok (some note), s) := by
  have hcaptured : (captured? filesPart slot).on s = (.ok none, s) := by rw [← hc]; rfl
  unfold restoreFile
  split
  · exact ⟨_, rfl⟩
  · exact ⟨_, rfl⟩
  · rw [Act.on_bind, hcaptured]
    exact ⟨_, rfl⟩

/-- Restoring a file operation from its note: it changes files and directories and strikes out
the note, or it fails. -/
theorem restoreFile_on (he : e.mutator = Machine.mutator) (hm : s.core.machine.Willing)
    (hop : op.Textual) (htarget : op.action = .rename ∨ op.action = .copy → op.target.IsText)
    (ha : op.action ≠ .setAttributes ∧ op.action ≠ .takeOwnership) {c : FileCapture}
    (hc : Assoc.get? slot s.memory.files = some c) :
    match op.undone c s.core.machine.fileView with
    | some z => ∃ m' s', (e.restoreFile slot op).on s = (.ok none, s') ∧
        s.core.machine.Rearranged m' z ∧ s'.core = { struckFile s.core slot with machine := m' }
    | none => ∃ f s', (e.restoreFile slot op).on s = (.error f, s') := by
  have hcaptured : (captured? filesPart slot).on s = (.ok (some c), s) := by rw [← hc]; rfl
  have hrun : (e.restoreFile slot op).on s = (do
      e.undoFile op c
      release filesPart slot
      return (none : Option String)).on s := by
    unfold restoreFile
    split
    · next h => exact absurd h ha.1
    · next h => exact absurd h ha.2
    · rw [Act.on_bind, hcaptured]
  have hundo := undoFile_rearranges he hm hop htarget c
  rw [hrun, Act.on_bind]
  revert hundo
  cases op.undone c s.core.machine.fileView with
  | none =>
    rintro ⟨f, s', hs'⟩
    rw [hs']
    exact ⟨f, s', rfl⟩
  | some z =>
    rintro ⟨x, m', s', hs', hview, hcore⟩
    rw [hs']
    obtain ⟨h₁, h₂, h₃, h₄⟩ := Core.mk.inj hcore
    refine ⟨m', filesPart.set (Assoc.erase slot s'.memory.files) s', rfl, hview, ?_⟩
    simp only [core, filesPart, Part.inside, memoryPart, Memory.filesPart, struckFile, Core.mk.injEq]
    exact ⟨h₁, h₂, by rw [h₃]; rfl, h₄⟩

end Engine
end TweakEngine
