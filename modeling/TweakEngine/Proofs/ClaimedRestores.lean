/-
# Restores that are claimed

A revert lists the restoring of a file operation among what it has done, and this can be
wrong: an operation may have written over something that its note does not tell.
`FileOperation.Forgets` says when: a new file over a directory or a file that cannot be read,
a new directory over a file, a backup, a renaming or a copy over something else.  A claimed
restore has put every path that the operation changed back exactly when the operation has not
forgotten anything (`claimed_iff`).
-/

import TweakEngine.Proofs.FileRestoration

namespace TweakEngine

open Session

/-- What has been changed from `x` to `y` is in `z` as it was. -/
def FileView.PutBack (x y z : FileView) : Prop :=
  ∀ p, y.atPath p ≠ x.atPath p → z.atPath p = x.atPath p

namespace FileView

variable {x y z : FileView} {p q : String}

theorem putBack_of_eq (h : z = x) : x.PutBack y z := fun _ _ => h ▸ rfl

/-- When everything but one path is as it was, that path decides. -/
theorem putBack_iff_at (hz : ∀ r, r ≠ q → z.atPath r = x.atPath r) :
    x.PutBack y z ↔ (y.atPath q ≠ x.atPath q → z.atPath q = x.atPath q) := by
  refine ⟨fun h => h q, fun h r hr => ?_⟩
  by_cases hrq : r = q
  · subst hrq
    exact h hr
  · exact hz r hrq

/-- When nothing is done about a change of one path, nothing may have changed there. -/
theorem putBack_self_iff_at (hy : ∀ r, r ≠ q → y.atPath r = x.atPath r) :
    x.PutBack y y ↔ y.atPath q = x.atPath q := by
  rw [putBack_iff_at hy]
  exact ⟨fun h => by_contra fun hne => hne (h hne), fun h _ => h⟩

/-- Writing a file changes its path only. -/
theorem atPath_writing {r : String} {content : Datum} (h : r ≠ p) :
    (x.writing p content).atPath r = x.atPath r := by simp [atPath, writing, h]

/-- Making a directory changes its path only. -/
theorem atPath_making {r : String} (h : r ≠ p) : (x.making p).atPath r = x.atPath r := by
  simp [atPath, making, h]

/-- Copying changes its target only. -/
theorem atPath_copying {r : String} (h : r ≠ q) : (x.copying p q).atPath r = x.atPath r := by
  unfold copying
  split
  · exact atPath_writing h
  · exact atPath_making h

theorem copying_self (hp : x.taken p = true) : x.copying p p = x := by
  cases hpf : x.files p with
  | some content => rw [copying, hpf]; simp only [writing, ← hpf, Function.update_eq_self]
  | none =>
    rw [copying, hpf]
    exact making_self (by simpa [taken, hpf] using hp)

theorem moving_self (hp : x.taken p = true) : x.moving p p = x := by
  cases hpf : x.files p with
  | some content =>
    rw [moving, hpf]
    simp only [Function.update_idem, ← hpf, Function.update_eq_self]
  | none =>
    have hdir : x.directories p = true := by simpa [taken, hpf] using hp
    rw [moving, hpf]
    simp only [Function.update_idem, ← hdir, Function.update_eq_self]

/-- Writing a file where a note was taken is put back unless the note cannot tell what was there. -/
theorem putBack_writing {content : Datum} (hcontent : content.isNull = false)
    (hz : (if !x.taken p then
        if (x.writing p content).taken p then some ((x.writing p content).clearing p) else none
      else if !(x.text p).isNull then some ((x.writing p content).writing p (x.text p))
      else some (x.writing p content)) = some z) :
    x.PutBack (x.writing p content) z ↔ ¬(x.taken p = true ∧ (x.text p).isNull = true) := by
  cases ht : x.taken p with
  | false =>
    simp only [ht, taken_writing, Bool.not_false, if_true] at hz
    obtain rfl := Option.some.inj hz
    exact iff_of_true (putBack_of_eq (clearing_writing ht)) (by simp)
  | true =>
    cases hnull : (x.text p).isNull with
    | false =>
      simp only [ht, hnull, Bool.not_true, Bool.not_false, Bool.false_eq_true, if_false,
        if_true] at hz
      obtain rfl := Option.some.inj hz
      exact iff_of_true (putBack_of_eq (writing_writing (files_of_text hnull).1)) (by simp)
    | true =>
      simp only [ht, hnull, Bool.not_true, Bool.false_eq_true, if_false] at hz
      obtain rfl := Option.some.inj hz
      rw [putBack_self_iff_at fun r => atPath_writing]
      refine iff_of_false (fun hsame => ?_) (by simp)
      have hfile : x.files p = some content := by
        simpa [atPath, writing] using (congrArg Prod.fst hsame).symm
      rw [text, hfile, Option.getD_some, hcontent] at hnull
      cases hnull

/-- Making a directory is put back unless a file stands in its place. -/
theorem putBack_making :
    x.PutBack (x.making p)
        (if !x.taken p && (x.making p).taken p then (x.making p).clearing p else x.making p) ↔
      ¬(x.files p ≠ none ∧ x.directories p = false) := by
  cases ht : x.taken p with
  | false =>
    simp only [taken_making, Bool.not_false, Bool.and_self, if_true]
    exact iff_of_true (putBack_of_eq (clearing_making ht)) fun h => h.1 (taken_eq_false.mp ht).1
  | true =>
    simp only [Bool.not_true, Bool.false_and, Bool.false_eq_true, if_false]
    rw [putBack_self_iff_at fun r => atPath_making]
    cases hdir : x.directories p with
    | true => exact iff_of_true (by rw [making_self hdir]) (by simp)
    | false =>
      have hfile : x.files p ≠ none := by
        simpa [taken, hdir, Option.isSome_iff_ne_none] using ht
      exact iff_of_false (by simp [atPath, making, hdir]) fun h => h ⟨hfile, rfl⟩

/-- Copying is put back unless it writes over something else. -/
theorem putBack_copying :
    x.PutBack (x.copying p q)
        (if !x.taken q && (x.copying p q).taken q then (x.copying p q).clearing q
        else x.copying p q) ↔
      ¬(x.taken q = true ∧ (x.copying p q).atPath q ≠ x.atPath q) := by
  cases hfree : x.taken q with
  | false =>
    simp only [taken_copied, Bool.not_false, Bool.and_self, if_true]
    exact iff_of_true (putBack_of_eq (clearing_copying hfree)) (by simp)
  | true =>
    simp only [Bool.not_true, Bool.false_and, Bool.false_eq_true, if_false]
    rw [putBack_self_iff_at fun r => atPath_copying]
    simp

/-- A file that is moved away and back takes away what its text has replaced. -/
theorem putBack_movingFile {content : Datum} (hfile : x.files p = some content) (hne : p ≠ q) :
    x.PutBack (x.moving p q) ((x.moving p q).moving q p) ↔
      ¬(x.files q ≠ none ∧ x.files q ≠ x.files p) := by
  have hmoved : x.moving p q = { x with
      files := Function.update (Function.update x.files p none) q (some content) } := by
    rw [moving, hfile]
  have hback : (x.moving p q).moving q p = { x with files := Function.update x.files q none } := by
    rw [hmoved, moving]
    simp only [Function.update_self, Function.update_idem]
    rw [Function.update_comm hne, Function.update_idem, Function.update_comm hne.symm, ← hfile,
      Function.update_eq_self]
  rw [hback, hmoved, putBack_iff_at (q := q) fun r hr => by simp [atPath, hr], hfile]
  simp only [atPath, Function.update_self, ne_eq, Prod.mk.injEq, and_true]
  tauto

/-- A directory that is moved away and back takes away a file at the target. -/
theorem putBack_movingDirectory (hp : x.taken p = true) (hfile : x.files p = none) (hne : p ≠ q) :
    x.PutBack (x.moving p q) ((x.moving p q).moving q p) ↔ x.files q = none := by
  have hdir : x.directories p = true := by simpa [taken, hfile] using hp
  have hmoved : x.moving p q = { x with
      directories := Function.update (Function.update x.directories p false) q true } := by
    rw [moving, hfile]
  cases hq : x.files q with
  | some content =>
    -- it is the file at the target that is moved back, and not the directory
    have hback : ((x.moving p q).moving q p).atPath p ≠ x.atPath p := by
      rw [hmoved, moving, hq]
      simp [atPath, hfile]
    have hgone : (x.moving p q).atPath p ≠ x.atPath p := by simp [hmoved, atPath, hne, hdir]
    exact iff_of_false (fun h => hback (h p hgone)) (Option.some_ne_none content)
  | none =>
    have hback : (x.moving p q).moving q p = { x with
        directories := Function.update x.directories q false } := by
      rw [hmoved, moving, hq]
      simp only [Function.update_idem]
      rw [Function.update_comm hne, Function.update_idem, Function.update_comm hne.symm, ← hdir,
        Function.update_eq_self]
    rw [hback, hmoved, putBack_iff_at (q := q) fun r hr => by simp [atPath, hr]]
    refine iff_of_true (fun hchanged => ?_) rfl
    have hfree : x.directories q = false := by
      by_contra hdir
      exact hchanged (by simp [atPath, Bool.not_eq_false _ ▸ hdir])
    simp [atPath, hfree]

/-- Moving something away and back takes away a file at the target. -/
theorem putBack_moving (hp : x.taken p = true) :
    x.PutBack (x.moving p q) ((x.moving p q).moving q p) ↔
      ¬(x.files q ≠ none ∧ x.files q ≠ x.files p) := by
  by_cases hne : p = q
  · subst hne
    rw [moving_self hp, moving_self hp]
    exact iff_of_true (putBack_of_eq rfl) fun h => h.2 rfl
  · cases hfile : x.files p with
    | some content => rw [putBack_movingFile hfile hne, hfile]
    | none =>
      rw [putBack_movingDirectory hp hfile hne]
      tauto

theorem taken_clearing : (x.clearing p).taken p = false := by simp [taken, clearing]

/-- A directory that has gone with a file of the same path does not come back with it. -/
theorem not_putBack_of_both (hfile : x.files p ≠ none) (hdir : x.directories p = true)
    (hy : y.atPath p = (none, false)) (hz : z.directories p = y.directories p) :
    ¬x.PutBack y z := by
  intro h
  have hback := congrArg Prod.snd (h p (by rw [hy]; simp [atPath, hfile.symm]))
  have hgone : y.directories p = false := congrArg Prod.snd hy
  simp [atPath, hz, hgone, hdir] at hback

/-- Putting back what has been deleted, from a backup or by its text. -/
theorem putBack_deleting {backed : Bool}
    (hy : y = if x.taken p then (if backed then x.copying p q else x).clearing p else x)
    (hz : (if x.taken p && backed && y.taken q then some (y.moving q p)
      else if x.taken p then
        if (x.text p).isNull then none else some (y.writing p (x.text p))
      else some y) = some z) :
    x.PutBack y z ↔ ¬(x.files p ≠ none ∧ x.directories p = true ∨
      backed = true ∧ x.taken p = true ∧ x.files q ≠ none ∧ x.files q ≠ x.files p) := by
  cases ht : x.taken p with
  | false =>
    simp only [ht, Bool.false_and, Bool.false_eq_true, if_false] at hy hz
    subst hy
    obtain rfl := Option.some.inj hz
    exact iff_of_true (putBack_of_eq rfl) (by simp [(taken_eq_false.mp ht).1])
  | true =>
    simp only [ht, Bool.true_and, if_true] at hy hz
    have hgone : y.atPath p = (none, false) := by rw [hy]; simp [atPath, clearing]
    by_cases hboth : x.files p ≠ none ∧ x.directories p = true
    · refine iff_of_false (not_putBack_of_both hboth.1 hboth.2 hgone ?_) fun h => h (.inl hboth)
      cases hback : backed && y.taken q with
      | false =>
        simp only [hback, Bool.false_eq_true, if_false, Option.ite_none_left_eq_some] at hz
        rw [← Option.some.inj hz.2]
        rfl
      | true =>
        -- the backup is a file, so that a file is moved back and no directory
        obtain ⟨rfl, htaken⟩ := Bool.and_eq_true_iff.mp hback
        obtain ⟨content, hcontent⟩ := Option.ne_none_iff_exists'.mp hboth.1
        have hfile : y.files q = some content := by
          have hne : q ≠ p := by
            rintro rfl
            rw [hy] at htaken
            simp [taken_clearing] at htaken
          simp [hy, clearing, copying, hcontent, writing, hne]
        simp only [hback, if_true, moving, hfile] at hz
        rw [← Option.some.inj hz]
    · have hapart : x.files p ≠ none → x.directories p = false := fun h =>
        Bool.eq_false_iff.mpr fun hdir => hboth ⟨h, hdir⟩
      by_cases hmoved : backed = true ∧ p ≠ q
      · obtain ⟨rfl, hne⟩ := hmoved
        simp only [if_true, clearing_copying_eq_moving hapart hne] at hy
        subst hy
        simp only [taken_moving, Bool.and_self, if_true] at hz
        obtain rfl := Option.some.inj hz
        rw [putBack_moving ht]
        simp [hboth]
      · have hcleared : y = x.clearing p ∧ (backed && y.taken q) = false := by
          cases backed with
          | false => exact ⟨by rw [hy]; rfl, rfl⟩
          | true =>
            obtain rfl : p = q := by simpa using hmoved
            simp only [if_true, copying_self ht] at hy
            exact ⟨hy, by rw [hy, taken_clearing]; rfl⟩
        simp only [hcleared.2, Bool.false_eq_true, if_false, Option.ite_none_left_eq_some,
          Bool.not_eq_true] at hz
        obtain ⟨hnull, hz⟩ := hz
        obtain ⟨hfile, -⟩ := files_of_text hnull
        rw [hcleared.1, writing_clearing hfile (hapart (hfile ▸ Option.some_ne_none _))] at hz
        refine iff_of_true (putBack_of_eq (Option.some.inj hz).symm) ?_
        rintro (h | ⟨hbacked, -, -, hdiffers⟩)
        · exact hboth h
        · exact hmoved ⟨hbacked, fun e => hdiffers (by rw [e])⟩

end FileView

namespace FileOperation

variable {op : FileOperation} {x y z : FileView}

/-- An operation overwrites something that its note does not tell, or takes away a file and a
directory that have one path. -/
def Forgets (op : FileOperation) (x : FileView) : Prop :=
  match op.action with
  | .createFile => x.taken op.path.display = true ∧ (x.text op.path.display).isNull = true
  | .createDirectory => x.files op.path.display ≠ none ∧ x.directories op.path.display = false
  | .delete =>
    x.files op.path.display ≠ none ∧ x.directories op.path.display = true ∨
      op.backup.truthy = true ∧ x.taken op.path.display = true ∧
        x.files op.backup.display ≠ none ∧ x.files op.backup.display ≠ x.files op.path.display
  | .rename =>
    op.target.truthy = true ∧ x.taken op.path.display = true ∧
      x.files op.target.display ≠ none ∧ x.files op.target.display ≠ x.files op.path.display
  | .copy =>
    op.target.truthy = true ∧ x.taken op.path.display = true ∧ x.taken op.target.display = true ∧
      (x.copying op.path.display op.target.display).atPath op.target.display ≠
        x.atPath op.target.display
  | .setAttributes | .takeOwnership => False

theorem written_isNull (op : FileOperation) : op.written.isNull = false := by
  unfold written
  split
  · next h =>
    cases hc : op.content with
    | null => rw [hc] at h; cases h
    | _ => rfl
  · rfl

/-- An operation that fails has not forgotten anything. -/
theorem not_forgets_of_effect (h : op.effect x = none) : ¬op.Forgets x := by
  unfold effect at h
  unfold Forgets
  cases ha : op.action with
  | setAttributes | takeOwnership => exact id
  | createFile | createDirectory | delete =>
    rw [ha] at h
    cases h
  | rename | copy =>
    rw [ha] at h
    rintro ⟨htarget, htaken, -⟩
    simp [htarget, htaken] at h

/-- A restore has put everything back exactly when the operation has not forgotten anything. -/
theorem putBack_iff (hy : op.effect x = some y) (hz : op.undone (op.noteOf x) y = some z) :
    x.PutBack y z ↔ ¬op.Forgets x := by
  unfold effect at hy
  unfold noteOf undone at hz
  unfold Forgets
  cases ha : op.action with
  | setAttributes | takeOwnership => rw [ha] at hy; cases hy
  | createFile =>
    simp only [ha] at hy hz ⊢
    obtain rfl := Option.some.inj hy
    exact FileView.putBack_writing op.written_isNull hz
  | createDirectory =>
    simp only [ha] at hy hz ⊢
    obtain rfl := Option.some.inj hy
    obtain rfl := Option.some.inj hz
    exact FileView.putBack_making
  | delete =>
    simp only [ha] at hy hz ⊢
    obtain rfl := Option.some.inj hy
    exact FileView.putBack_deleting rfl hz
  | rename =>
    simp only [ha] at hy hz ⊢
    simp only [Option.ite_none_right_eq_some, Bool.and_eq_true] at hy
    obtain ⟨⟨htarget, ht⟩, hy⟩ := hy
    obtain rfl := Option.some.inj hy
    simp only [FileView.taken_moving, if_true] at hz
    obtain rfl := Option.some.inj hz
    simpa [htarget, ht] using FileView.putBack_moving ht
  | copy =>
    simp only [ha] at hy hz ⊢
    simp only [Option.ite_none_right_eq_some, Bool.and_eq_true] at hy
    obtain ⟨⟨htarget, ht⟩, hy⟩ := hy
    obtain rfl := Option.some.inj hy
    obtain rfl := Option.some.inj hz
    simpa only [htarget, ht, true_and] using FileView.putBack_copying

end FileOperation

/-! ## Calls of a tweak of one operation -/

section

variable {e : Engine Machine} {t : Tweak} {s : Session Machine} {op : FileOperation}

/-- Running one step leaves what the step leaves, and lists it when it has done something. -/
theorem execute_one (st : Step Machine) (r : Result) (s : Session Machine) :
    ∃ r' s', (Engine.execute (fun _ => false) [st] r).on s = (.ok r', s') ∧
      s'.core = (st.run.on s).2.core ∧
      (r'.applied ≠ r.applied → ∃ s₁, st.run.on s = (.ok none, s₁)) := by
  have hview : (Act.view fun _ : Session Machine => false).on s = (.ok false, s) := rfl
  unfold Engine.execute Engine.runStep
  rw [Act.on_bind, hview]
  simp only [Bool.false_eq_true, if_false]
  rw [Act.on_bind, Act.on_bind, Act.on_attempt]
  rcases st.run.on s with ⟨f | _ | note, s₁⟩
  · dsimp only
    cases f.isOperational <;> exact ⟨_, _, rfl, rfl, fun h => absurd rfl h⟩
  · exact ⟨_, _, rfl, rfl, fun _ => ⟨s₁, rfl⟩⟩
  · exact ⟨_, _, rfl, rfl, fun h => absurd rfl h⟩

/-- Reverting a tweak that is not reversible lists nothing. -/
theorem revert_lists_nothing (hr : t.isReversible = false) {r : Result} {s' : Session Machine}
    (h : (e.revert (fun _ => false) t).on s = (.ok r, s')) : r.applied = [] := by
  have hrefuse : e.revert (fun _ => false) t = (do
      let start ← onHost Host.now
      Engine.refuse "REVERT" t start (.notReversible t.name.display)) := by
    rw [Engine.revert, hr]
    rfl
  rw [hrefuse] at h
  exact (congrArg Result.applied (Except.ok.inj (congrArg Prod.fst h))).symm

/-- A sequence of two views. -/
def viewsOf (x y : FileView) : Nat → FileView
  | 0 => x
  | _ + 1 => y

/-- Applying a tweak of one operation makes its effect and notes what was there, unless it fails
or the tweak is found applied. -/
theorem apply_one (he : e.mutator = Machine.mutator) (hlook : e.ReadOnlyDetector) (ht : t.FilesOnly)
    (hop : t.operations.files = [op]) (hm : s.core.machine.Willing) (hs : Unkept t s) :
    ((e.apply (fun _ => false) t).on s).2.core = s.core ∨
      match op.effect s.core.machine.fileView with
      | some y => FilesRun t s.core.machine (viewsOf s.core.machine.fileView y) 1
          ((e.apply (fun _ => false) t).on s).2.core
      | none => ((e.apply (fun _ => false) t).on s).2.core.machine = s.core.machine := by
  have hsteps := runSteps_files ht e
  rw [hop] at hsteps
  refine (apply_scene (fun _ => false) hlook (ht.mayRun e) hsteps hs.saved).imp id ?_
  rintro ⟨s₀, hcore₀, happlied⟩
  obtain ⟨r₁, s₁, hrun, hcore₁, -⟩ := execute_one ⟨op.describe, e.runFile ⟨t.id, .apply, 0⟩ op⟩
    { success := true, tweakId := t.id } s₀
  have hscene : ((e.apply (fun _ => false) t).on s).2.scene = s₁.scene :=
    happlied.trans (congrArg (fun x => x.2.scene) hrun)
  cases heffect : op.effect s.core.machine.fileView with
  | none =>
    have hnew : s₀.core.memory.fileNote t.id 0 = none := by
      rw [hcore₀]
      exact hs.noted 0
    have hnone := Engine.runFile_on he (hcore₀.symm ▸ hm)
      (ht.textual op (by rw [hop]; exact List.mem_singleton_self op)) hnew
    rw [hcore₀, heffect] at hnone
    exact (congrArg Prod.fst hscene).trans ((congrArg Core.machine hcore₁).trans hnone)
  | some y =>
    have hstart : FilesRun t s.core.machine (viewsOf s.core.machine.fileView y) 0 s₀.core := by
      rw [hcore₀]
      exact ⟨.refl _, fun j _ hj => absurd hj (Nat.not_lt_zero j), fun j _ => hs.noted j⟩
    obtain ⟨note?, s', hs', hnext⟩ := hstart.next he hm ht (by rw [hop]; rfl) heffect
    have hcore : s₁.core = s'.core := hcore₁.trans (congrArg (fun x => x.2.core) hs')
    exact FilesRun.of_scene (hcore ▸ hnext) hscene

/-- What a revert of the one operation lists has been done by restoring it. -/
theorem revert_lists (ht : t.FilesOnly) (hop : t.operations.files = [op])
    (hload : ∀ s₁ : Session Machine, s₁.core = s.core →
      ∃ s₂, (Engine.loadSnapshot t).on s₁ = (.ok (), s₂) ∧ s₂.core = s.core)
    {r : Result} {s' : Session Machine}
    (hrevert : (e.revert (fun _ => false) t).on s = (.ok r, s'))
    (hlisted : Engine.undoing "Restore" op.describe ∈ r.applied) :
    ∃ s₀ s₂, s₀.core = s.core ∧ (e.restoreFile ⟨t.id, .apply, 0⟩ op).on s₀ = (.ok none, s₂) ∧
      s'.core.machine = s₂.core.machine := by
  have hr : t.isReversible = true := by
    by_contra hr
    rw [revert_lists_nothing (Bool.eq_false_iff.mpr hr) hrevert] at hlisted
    cases hlisted
  have hsteps := restoreSteps_files ht e
  rw [hop] at hsteps
  obtain ⟨s₀, hcore₀, hscene, hresult⟩ := revert_scene (fun _ => false) (ht.mayRevert e) hr
    ht.withoutUndo hsteps hload
  obtain ⟨r₁, s₁, hrun, hcore₁, hdone⟩ := execute_one
    ⟨Engine.undoing "Restore" op.describe, e.restoreFile ⟨t.id, .apply, 0⟩ op⟩
    { success := true, tweakId := t.id } s₀
  rw [hrevert] at hscene hresult
  obtain ⟨r₀, hr₀, happlied⟩ := hresult r rfl
  obtain rfl : r₁ = r₀ := Except.ok.inj ((congrArg Prod.fst hrun).symm.trans hr₀)
  obtain ⟨s₂, hs₂⟩ := hdone (by rw [← happlied]; exact List.ne_nil_of_mem hlisted)
  refine ⟨s₀, s₂, hcore₀, hs₂, ?_⟩
  exact ((congrArg Prod.fst hscene).trans (congrArg (fun x => x.2.core.machine) hrun)).trans
    ((congrArg Core.machine hcore₁).trans (congrArg (fun x => x.2.core.machine) hs₂))

/-- Without a note nothing is listed as restored. -/
theorem not_listed (ht : t.FilesOnly) (hop : t.operations.files = [op]) (hs : Unkept t s)
    {r : Result} {s' : Session Machine}
    (hrevert : (e.revert (fun _ => false) t).on s = (.ok r, s')) :
    Engine.undoing "Restore" op.describe ∉ r.applied := by
  intro hlisted
  obtain ⟨s₀, s₂, hcore₀, hrestore, -⟩ := revert_lists ht hop (fun s₁ hs₁ => by
    obtain ⟨s₂, hs₂, hcore₂⟩ := loadSnapshot_on_unsaved (t := t) (s := s₁) fun st hst =>
      hs.saved st ((congrArg Core.store hs₁).symm.trans hst)
    exact ⟨s₂, hs₂, hcore₂.trans hs₁⟩) hrevert hlisted
  have hnew : s₀.core.memory.fileNote t.id 0 = none := by
    rw [hcore₀]
    exact hs.noted 0
  obtain ⟨note, hnote⟩ := Engine.restoreFile_on_none (e := e) op hnew
  cases hnote.symm.trans hrestore

/-- A revert that lists the restore of the one operation has restored it from its note. -/
theorem revert_one (he : e.mutator = Machine.mutator) (ht : t.FilesOnly)
    (hop : t.operations.files = [op]) {m₀ : Machine} (hm₀ : m₀.Willing) {x y : FileView}
    (heffect : op.effect x = some y) (hs : FilesRun t m₀ (viewsOf x y) 1 s.core) {r : Result}
    {s' : Session Machine} (hrevert : (e.revert (fun _ => false) t).on s = (.ok r, s'))
    (hlisted : Engine.undoing "Restore" op.describe ∈ r.applied) :
    op.undone (op.noteOf x) y = some s'.core.machine.fileView := by
  have htextual := ht.textual op (by rw [hop]; exact List.mem_singleton_self op)
  have hcovered : t.operations.files.length = 1 := by rw [hop]; rfl
  obtain ⟨s₀, s₂, hcore₀, hs₂, hmachine⟩ := revert_lists ht hop (fun s₁ hs₁ =>
    ⟨s₁, loadSnapshot_on_covered (FilesRun.covers ht (hcovered ▸ hs₁ ▸ hs)), hs₁⟩) hrevert hlisted
  obtain ⟨htarget, hkind⟩ := FileOperation.of_effect htextual (by rw [heffect]; exact nofun)
  rw [← hcore₀] at hs
  have hrestore := Engine.restoreFile_on he (hs.machine.willing hm₀) htextual htarget hkind
    (hs.noted 0 op Nat.zero_lt_one (by rw [hop]; rfl))
  have hview : s₀.core.machine.fileView = y := hs.machine.view
  rw [hview] at hrestore
  revert hrestore
  cases hundone : op.undone (op.noteOf (viewsOf x y 0)) y with
  | none =>
    rintro ⟨f, s₃, hs₃⟩
    cases hs₂.symm.trans hs₃
  | some z =>
    rintro ⟨m', s₃, hs₃, hview, hcore⟩
    have hmachine' : s'.core.machine = m' :=
      (hmachine.trans (congrArg (fun x => x.2.core.machine) (hs₂.symm.trans hs₃))).trans
        (congrArg Core.machine hcore)
    rw [hmachine', hview.view]
    exact hundone

/-- **A claimed restore is one exactly when nothing was forgotten.**  When reverting a tweak of
one file operation lists the restore among what it has done, every path that applying the tweak
has changed is as it was before, in existence and content, if and only if the operation has not
written over something that its note does not tell. -/
theorem claimed_iff (he : e.mutator = Machine.mutator) (hlook : e.ReadOnlyDetector)
    (ht : t.FilesOnly) (hop : t.operations.files = [op]) (hm : s.core.machine.Willing)
    (hs : Unkept t s) {r : Result} {s₁ s₂ : Session Machine}
    (happly : ((e.apply (fun _ => false) t).on s).2 = s₁)
    (hrevert : (e.revert (fun _ => false) t).on s₁ = (.ok r, s₂))
    (hlisted : Engine.undoing "Restore" op.describe ∈ r.applied) :
    s.core.machine.fileView.PutBack s₁.core.machine.fileView s₂.core.machine.fileView ↔
      ¬op.Forgets s.core.machine.fileView := by
  rcases apply_one he hlook ht hop hm hs with hskipped | happlied
  · rw [happly] at hskipped
    refine absurd hlisted (not_listed ht hop ⟨fun i => ?_, fun st hst => ?_⟩ hrevert)
    · exact (congrArg (fun c : Core Machine => c.memory.fileNote t.id i) hskipped).trans (hs.noted i)
    · exact hs.saved st ((congrArg Core.store hskipped).symm.trans hst)
  rw [happly] at happlied
  cases heffect : op.effect s.core.machine.fileView with
  | none =>
    rw [heffect] at happlied
    refine iff_of_true ?_ (FileOperation.not_forgets_of_effect heffect)
    rw [happlied]
    exact fun p hp => absurd rfl hp
  | some y =>
    rw [heffect] at happlied
    have hundone := revert_one he ht hop hm heffect happlied hrevert hlisted
    have hview : s₁.core.machine.fileView = y := happlied.machine.view
    rw [hview]
    exact FileOperation.putBack_iff heffect hundone

end

/-! ## A file that is overwritten -/

section

/-- Creates the file `a`. -/
def sampleCreation : FileOperation :=
  { path := .text "a", action := .createFile, content := .text "new" }

/-- A tweak that creates the file `a`. -/
def creatingTweak : Tweak :=
  { id := "t", name := .text "T", operations := { files := [sampleCreation] } }

/-- A session on a machine with a file `a`. -/
def fileSession (content : Datum) : Session Machine :=
  { host := { machine := { files := [("a", content)] } } }

theorem creatingTweak_filesOnly : creatingTweak.FilesOnly where
  registry := rfl
  services := rfl
  scripts := rfl
  textual := List.forall_mem_singleton.mpr ⟨⟨_, rfl⟩, .inl rfl, .inl rfl⟩
  withoutUndo := rfl

/-- A text among values. -/
theorem mem_of_any_text {ds : List Datum} {s : String}
    (h : ds.any (fun d => d.text? == some s) = true) : .text s ∈ ds := by
  obtain ⟨d, hd, htext⟩ := List.any_eq_true.mp h
  cases d with
  | text s' =>
    obtain rfl : s' = s := by simpa [Datum.text?] using htext
    exact hd
  | _ => cases htext

/-- Reverting lists the restore and leaves a text in the file. -/
def restoring (s₁ : Session Machine) (content : String) : Bool :=
  (Engine.revert { mutator := Machine.mutator } (fun _ => false) creatingTweak).succeeds s₁
    fun r s₂ => r.applied.any (fun d => d.text? == some "Restore: CreateFile a") &&
      ((Assoc.get? "a" s₂.core.machine.files).bind Datum.text? == some content)

theorem of_restoring {s₁ : Session Machine} {content : String} (h : restoring s₁ content = true) :
    ∃ r s₂, (Engine.revert { mutator := Machine.mutator } (fun _ => false) creatingTweak).on s₁ =
        (.ok r, s₂) ∧ Engine.undoing "Restore" sampleCreation.describe ∈ r.applied ∧
      Assoc.get? "a" s₂.core.machine.files = some (.text content) := by
  obtain ⟨r, s₂, hrevert, hafter⟩ := Act.of_succeeds h
  obtain ⟨hlisted, htext⟩ := Bool.and_eq_true_iff.mp hafter
  obtain ⟨d, hd, htext⟩ := Option.bind_eq_some_iff.mp (eq_of_beq htext)
  refine ⟨r, s₂, hrevert, mem_of_any_text hlisted, hd.trans ?_⟩
  cases d with
  | text s' => rw [Option.some.inj htext]
  | _ => cases htext

/-- A file that can be read comes back. -/
theorem sample_put_back :
    creatingTweak.FilesOnly ∧ (fileSession (.text "old")).core.machine.Willing ∧
      Unkept creatingTweak (fileSession (.text "old")) ∧
      ¬sampleCreation.Forgets (fileSession (.text "old")).core.machine.fileView ∧ ∃ s₁ r s₂,
        ((Engine.apply { mutator := Machine.mutator } (fun _ => false) creatingTweak).on
          (fileSession (.text "old"))).2 = s₁ ∧
        (Engine.revert { mutator := Machine.mutator } (fun _ => false) creatingTweak).on s₁ =
          (.ok r, s₂) ∧
        Engine.undoing "Restore" sampleCreation.describe ∈ r.applied ∧
        (fileSession (.text "old")).core.machine.fileView.PutBack s₁.core.machine.fileView
          s₂.core.machine.fileView := by
  have hunkept : Unkept creatingTweak (fileSession (.text "old")) := ⟨fun _ => rfl, nofun⟩
  have hkept : ¬sampleCreation.Forgets (fileSession (.text "old")).core.machine.fileView :=
    fun h => nomatch h.2
  obtain ⟨s₁, hs₁⟩ : ∃ s₁, ((Engine.apply { mutator := Machine.mutator } (fun _ => false)
    creatingTweak).on (fileSession (.text "old"))).2 = s₁ := ⟨_, rfl⟩
  obtain ⟨r, s₂, hrevert, hlisted, -⟩ := of_restoring
    (show restoring s₁ "old" = true by rw [← hs₁]; decide +kernel)
  exact ⟨creatingTweak_filesOnly, fun _ => rfl, hunkept, hkept, s₁, r, s₂, hs₁, hrevert, hlisted,
    (claimed_iff rfl (Engine.readOnlyDetector_of_none rfl) creatingTweak_filesOnly rfl
      (fun _ => rfl) hunkept hs₁ hrevert hlisted).mpr hkept⟩

/-- A file that cannot be read is overwritten and does not come back, and the restore is
listed. -/
theorem sample_lost :
    creatingTweak.FilesOnly ∧ (fileSession .null).core.machine.Willing ∧
      Unkept creatingTweak (fileSession .null) ∧
      sampleCreation.Forgets (fileSession .null).core.machine.fileView ∧ ∃ s₁ r s₂,
        ((Engine.apply { mutator := Machine.mutator } (fun _ => false) creatingTweak).on
          (fileSession .null)).2 = s₁ ∧
        (Engine.revert { mutator := Machine.mutator } (fun _ => false) creatingTweak).on s₁ =
          (.ok r, s₂) ∧
        Engine.undoing "Restore" sampleCreation.describe ∈ r.applied ∧
        Assoc.get? "a" (fileSession .null).core.machine.files = some .null ∧
        Assoc.get? "a" s₂.core.machine.files = some (.text "new") := by
  obtain ⟨s₁, hs₁⟩ : ∃ s₁, ((Engine.apply { mutator := Machine.mutator } (fun _ => false)
    creatingTweak).on (fileSession .null)).2 = s₁ := ⟨_, rfl⟩
  obtain ⟨r, s₂, hrevert, hlisted, hlost⟩ := of_restoring
    (show restoring s₁ "new" = true by rw [← hs₁]; decide +kernel)
  exact ⟨creatingTweak_filesOnly, fun _ => rfl, ⟨fun _ => rfl, nofun⟩, ⟨rfl, rfl⟩, s₁, r, s₂, hs₁,
    hrevert, hlisted, rfl, hlost⟩

end
end TweakEngine
