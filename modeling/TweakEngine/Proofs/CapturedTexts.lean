/-
# Captured texts of files

Writing over a file and deleting it without a backup note first the text of the file, and reverting
writes the noted text.  Reading unifies the line ends and writing does not put them back, so what
comes back are the bytes of the text with newlines (`Engine.text_kept`): the same file if there was
no carriage return in it, and a different one otherwise.

A path goes on naming the same place while files change (`Disk.Only`), because its meaning depends
on the home and on the directories alone (`WindowsAccess.Finds.of_only`).  The directory of a file
is there (`Disk.locate_parent`), so it need not be made when the file is written.
-/

import TweakEngine.Proofs.SingleSteps
import TweakEngine.Proofs.TextBytes

namespace TweakEngine

/-! ## The directory of a file -/

namespace Path

/-- The text of a directory is a dot, or what stands in it has a text that begins with it. -/
theorem parent_text (p : Path) : p.parent.text = "." ∨ p.parent.text.toList <+: p.text.toList := by
  by_cases hhere : p.parent.root = .relative ∧ p.parent.parts = []
  · exact .inl (if_pos hhere)
  right
  rw [text, if_neg hhere, parent]
  rcases List.eq_nil_or_concat p.parts with hparts | ⟨above, name, hparts⟩
  · rw [text, if_neg (by simpa [parent, hparts] using hhere), hparts]
    exact List.prefix_rfl
  · rw [List.concat_eq_append] at hparts
    rw [text, if_neg (by simp [hparts]), hparts, List.dropLast_concat, String.toList_append,
      String.toList_append, List.prefix_append_right_inj]
    by_cases habove : above = []
    · subst habove
      exact List.nil_prefix
    · rw [Text.join_append "/" habove (List.cons_ne_nil _ _)]
      exact List.prefix_append _ _

end Path

namespace Disk

variable {d d' : Disk} {p : Path} {loc loc' : List String}

/-- Following all parts but the last one ends at a directory. -/
theorem follow_dropLast {parts : List String} (hparts : parts ≠ [])
    (h : d.follow loc parts = .ok loc') :
    ∃ dloc, d.follow loc parts.dropLast = .ok dloc ∧ d.at? dloc = some .directory := by
  induction parts generalizing loc with
  | nil => exact absurd rfl hparts
  | cons name rest ih =>
    have hdir := folder_of_follow h
    cases rest with
    | nil => exact ⟨loc, rfl, hdir⟩
    | cons next rest =>
      rw [follow_cons hdir] at h
      rw [List.dropLast_cons_cons, follow_cons hdir]
      split at h
      · next hup =>
        rw [if_pos hup]
        exact ih (List.cons_ne_nil _ _) h
      · next hup =>
        rw [if_neg hup]
        split at h
        · cases h
        · next hlen =>
          rw [if_neg hlen]
          exact ih (List.cons_ne_nil _ _) h

/-- The directory of a file is there. -/
theorem locate_parent (hhere : d.at? d.here = some .directory) (h : d.locate p = .ok loc)
    (hfile : d.at? loc ≠ some .directory) :
    ∃ dloc, d.locate p.parent = .ok dloc ∧ d.at? dloc = some .directory := by
  obtain ⟨hnull, hlen, hfollow⟩ := locate_ok_iff.mp h
  have hparts : p.parts ≠ [] := by
    intro hnil
    rw [hnil] at hfollow
    cases hfollow
    refine hfile ?_
    split
    · rfl
    · exact hhere
  obtain ⟨dloc, hdloc, hdir⟩ := follow_dropLast hparts hfollow
  refine ⟨dloc, locate_ok_iff.mpr ⟨?_, ?_, hdloc⟩, hdir⟩
  · rcases p.parent_text with hdot | hstart
    · rw [hdot]
      rfl
    · rw [List.contains_eq_mem, decide_eq_false_iff_not] at hnull ⊢
      exact fun hmem => hnull (hstart.subset hmem)
  · rcases p.parent_text with hdot | ⟨more, hmore⟩
    · rw [hdot]
      decide
    · rw [Encoding.utf8, ← hmore, List.flatMap_append, List.length_append] at hlen
      exact Nat.le_of_add_right_le hlen

/-! ## Changes of one file -/

/-- Only what is at one location may have changed, and it was and is no directory. -/
structure Only (d : Disk) (loc : List String) (d' : Disk) : Prop where
  folders : SameFolders d d'
  home : d'.home = d.home
  others : ∀ loc' ≠ loc, d'.at? loc' = d.at? loc'
  file : d'.at? loc ≠ some .directory

theorem Only.refl (h : d.at? loc ≠ some .directory) : Only d loc d where
  folders := .refl d
  home := rfl
  others _ _ := rfl
  file := h

theorem only_withFile (h : d.at? loc ≠ some .directory) (bytes : List UInt8) :
    Only d loc (d.withFile loc bytes) where
  folders := sameFolders_withFile h bytes
  home := rfl
  others loc' hne := by rw [at?_withFile h, if_neg hne.symm]
  file := by rw [at?_withFile h, if_pos rfl]; exact nofun

theorem only_without (h : d.at? loc ≠ some .directory) : Only d loc (d.without loc) where
  folders := sameFolders_without h
  home := rfl
  others loc' hne := by rw [at?_without h, if_neg hne.symm]
  file := by rw [at?_without h, if_pos rfl]; exact nofun

end Disk

/-! ## Requests about a file -/

/-- What an action does on the files it does on the host. -/
theorem Host.onDisk_of {μ α : Type} {a : Act Disk α} {h : Host μ} {r : Except Failure α} {d : Disk}
    (ha : a.on h.disk = (r, d)) : (Host.onDisk a).on h = (r, { h with disk := d }) := by
  have hlift : (Host.onDisk a).on h =
      ((a.on h.disk).1, { h with disk := (a.on h.disk).2 }) := rfl
  rw [hlift, ha]

namespace WindowsAccess

open Disk

variable {w : WindowsAccess} {h h' : Host Windows} {path : Datum} {p : Path} {loc : List String}
  {bytes : List UInt8} {s : String}

/-- What a path names depends on the home only. -/
theorem expand_on (hp : (w.expand path).on h = (.ok p, h)) (hhome : h'.disk.home = h.disk.home) :
    (w.expand path).on h' = (.ok p, h') := by
  have hsame : ((w.expand path).on h').1 = ((w.expand path).on h).1 := by
    unfold expand
    rw [Act.on_bind, Act.on_bind, Act.on_view, Act.on_view, hhome]
    cases path <;> rfl
  have hkept : ((w.expand path).on h').2 = h' := by
    unfold expand
    rw [Act.on_bind, Act.on_view]
    cases path <;> rfl
  rw [hp] at hsame
  exact Prod.ext hsame hkept

/-- The path names this place, and no directory is there. -/
structure Finds (w : WindowsAccess) (path : Datum) (p : Path) (loc : List String)
    (h : Host Windows) : Prop where
  named : (w.expand path).on h = (.ok p, h)
  located : h.disk.locate p = .ok loc
  here : h.disk.at? h.disk.here = some .directory
  file : h.disk.at? loc ≠ some .directory

namespace Finds

theorem of_only (hf : w.Finds path p loc h) (ho : Only h.disk loc h'.disk) :
    w.Finds path p loc h' where
  named := expand_on hf.named ho.home
  located := ho.folders.locate hf.located
  here := by rw [ho.folders.here]; exact (ho.folders.folder _).mpr hf.here
  file := ho.file

theorem pathExists (hf : w.Finds path p loc h) :
    (w.pathExists path).on h = (.ok (h.disk.at? loc).isSome, h) := by
  rw [WindowsAccess.pathExists, Act.on_bind_of_ok hf.named]
  exact Host.onDisk_of (present_on hf.located)

/-- A small file is read as its text with unified line ends. -/
theorem readText (hf : w.Finds path p loc h) (hbytes : h.disk.at? loc = some (.file bytes))
    (hsmall : bytes.length ≤ maxRead) (hs : Encoding.decode bytes = .ok s) :
    (w.readText path).on h = (.ok (.text (Encoding.unified s)), h) := by
  have hfile : (isFile p).on h.disk = (.ok true, h.disk) := by
    rw [isFile, Act.on_of, look, hf.located]
    dsimp only
    rw [hbytes]
    rfl
  have hread : (readBytes p).on h.disk = (.ok bytes, h.disk) := by
    rw [readBytes, Act.on_bind_of_ok (locating_on hf.located), Act.on_bind, Act.on_view, hbytes]
    rfl
  have htext : textOf bytes = .ok (Encoding.unified s) := by
    rw [textOf, hs]
    rfl
  rw [WindowsAccess.readText, Act.on_bind_of_ok hf.named]
  refine (Act.on_bind_of_ok (Act.rescue_of_ok _ (Host.onDisk_of (d := h.disk) ?_))).trans rfl
  rw [Act.on_bind_of_ok hfile, if_neg (by decide), Act.on_bind_of_ok hread,
    if_neg (Nat.not_lt.mpr hsmall), Act.on_bind_result htext]
  rfl

/-- The directory of a path is there already when a file is written. -/
theorem makeParent (hf : w.Finds path p loc h) :
    (Host.onDisk (makeDirs p.parent)).on h = (.ok (), h) := by
  obtain ⟨dloc, hdloc, hdir⟩ := locate_parent hf.here hf.located hf.file
  exact Host.onDisk_of (makeDirs_on hdloc hdir)

theorem putFile_on (hf : w.Finds path p loc h) (content : Datum) (createDirectories : Bool) :
    (w.putFile path content createDirectories).on h =
      (match content with
        | .text s => Host.onDisk (writeText p s)
        | d => throw (.mistyped ("data must be str, not " ++ d.form)) :
          Call Windows Unit).on h := by
  rw [putFile, Act.on_bind_of_ok hf.named]
  cases createDirectories with
  | false => rfl
  | true => exact Act.on_bind_of_ok hf.makeParent

/-- Writing a text puts its bytes there. -/
theorem putText (hf : w.Finds path p loc h) (s : String) (createDirectories : Bool) :
    (w.putFile path (.text s) createDirectories).on h =
      (.ok (), { h with disk := h.disk.withFile loc (Encoding.utf8 s) }) :=
  (hf.putFile_on _ _).trans (Host.onDisk_of (writeText_on hf.located hf.file s))

/-- Writing changes nothing else, and nothing at all when there is no text to write. -/
theorem put (hf : w.Finds path p loc h) (content : Datum) (createDirectories : Bool) :
    ∃ r h', (w.putFile path content createDirectories).on h = (r, h') ∧
      Only h.disk loc h'.disk := by
  cases content with
  | text s => exact ⟨_, _, hf.putText s createDirectories, only_withFile hf.file _⟩
  | _ => exact ⟨_, _, hf.putFile_on _ _, .refl hf.file⟩

theorem delete (hf : w.Finds path p loc h) (hbytes : h.disk.at? loc = some (.file bytes)) :
    (w.deletePath path).on h = (.ok (), { h with disk := h.disk.without loc }) := by
  have hdir : (isDir p).on h.disk = (.ok false, h.disk) := by
    rw [isDir, Act.on_of, look, hf.located]
    dsimp only
    rw [hbytes]
    rfl
  rw [deletePath, Act.on_bind_of_ok hf.named, Act.on_bind_of_ok (Host.onDisk_of hdir)]
  exact Host.onDisk_of (unlink_on hf.located hbytes)

end Finds
end WindowsAccess

/-! ## Replacing a file and reverting the change -/

/-- The operation writes over a file, or deletes it without a backup. -/
def FileOperation.Replaces (op : FileOperation) : Prop :=
  op.action = .createFile ∨ op.action = .delete ∧ op.backup.truthy = false

section

open Session Disk

variable {e : Engine Windows} {w : WindowsAccess} {op : FileOperation} {slot : Slot}
  {s : Session Windows} {p : Path} {loc : List String} {bytes : List UInt8} {text : String}

namespace FileOperation.Replaces

/-- Before it changes the file the operation notes its text with unified line ends. -/
theorem captureFile (ha : op.Replaces) (he : e.mutator = w.mutator)
    (hf : w.Finds op.path p loc s.host) (hbytes : s.host.disk.at? loc = some (.file bytes))
    (hsmall : bytes.length ≤ WindowsAccess.maxRead) (htext : Encoding.decode bytes = .ok text)
    (hfree : Assoc.get? slot s.memory.files = none) :
    (e.captureFile slot op).on s = (.ok (true, true), filesPart.set
      (Assoc.put slot ⟨true, .text (Encoding.unified text)⟩ s.memory.files) s) := by
  have hthere : (onHost (e.mutator.pathExists op.path)).on s = (.ok true, s) := by
    rw [he]
    exact onHost_of (hf.pathExists.trans (by rw [hbytes]; rfl))
  have hread : (onHost (e.mutator.readText op.path)).on s =
      (.ok (.text (Encoding.unified text)), s) := by
    rw [he]
    exact onHost_of (hf.readText hbytes hsmall htext)
  have hkind : op.action ≠ .createDirectory := by
    rcases ha with ha | ⟨ha, -⟩ <;> rw [ha] <;> decide
  rw [Engine.captureFile, Act.on_bind_of_ok hthere]
  simp only [Bool.true_and, decide_eq_true_eq, hkind, ne_eq, not_false_eq_true, if_true]
  rw [Act.on_bind_of_ok hread, Act.on_bind_of_ok (capture_first filesPart hfree _)]
  rfl

/-- **Running the operation** keeps the note and changes the file alone. -/
theorem run (ha : op.Replaces) (he : e.mutator = w.mutator) (hf : w.Finds op.path p loc s.host)
    (hbytes : s.host.disk.at? loc = some (.file bytes))
    (hsmall : bytes.length ≤ WindowsAccess.maxRead) (htext : Encoding.decode bytes = .ok text)
    (hfree : Assoc.get? slot s.memory.files = none) :
    Only s.host.disk loc ((e.runFile slot op).on s).2.host.disk ∧
      Assoc.get? slot ((e.runFile slot op).on s).2.memory.files =
        some ⟨true, .text (Encoding.unified text)⟩ := by
  have hcapture := ha.captureFile he hf hbytes hsmall htext hfree
  -- the host is as it was when the note is made
  generalize hs₁ : filesPart.set (Assoc.put slot ⟨true, .text (Encoding.unified text)⟩
    s.memory.files) s = s₁ at hcapture
  have hhost : s₁.host = s.host := by rw [← hs₁]; rfl
  have hnoted : Assoc.get? slot s₁.memory.files = some ⟨true, .text (Encoding.unified text)⟩ := by
    rw [← hs₁]
    exact (Assoc.get?_put _ _ _ _).trans (if_pos rfl)
  rw [← hhost] at hf hbytes ⊢
  rcases ha with ha | ⟨ha, hbackup⟩ <;> rw [Engine.runFile, ha] <;> dsimp only
  · rw [Act.discard_bind, Act.on_bind_of_ok hcapture]
    -- a content that is no text is not written
    generalize (if op.content.truthy then op.content else .text "") = content
    obtain ⟨r, h', hput, honly⟩ := hf.put content op.createDirectories
    have hwrite : (e.write (.writeFile op.path content op.createDirectories)).on s₁ =
        (r, { s₁ with host := h' }) := Engine.write_of he hput
    rw [Act.on_bind, hwrite]
    cases r <;> exact ⟨honly, hnoted⟩
  · rw [Act.on_bind_of_ok hcapture]
    simp only [Bool.not_true, hbackup, Bool.false_and, Bool.false_eq_true, if_false]
    rw [Act.on_bind_of_ok (Engine.write_of (c := .deletePath op.path) he (hf.delete hbytes))]
    exact ⟨only_without hf.file, hnoted⟩

/-- **Restoring the operation** writes the noted text. -/
theorem restore (ha : op.Replaces) (he : e.mutator = w.mutator)
    (hf : w.Finds op.path p loc s.host)
    (hnoted : Assoc.get? slot s.memory.files = some ⟨true, .text text⟩) :
    ((e.restoreFile slot op).on s).2.host.disk =
      s.host.disk.withFile loc (Encoding.utf8 text) := by
  have hcaptured : (captured? filesPart slot).on s = (.ok (some ⟨true, .text text⟩), s) := by
    rw [← hnoted]; rfl
  have hwrite : (e.write (.writeFile op.path (.text text) op.createDirectories)).on s =
      (.ok (), { s with host :=
        { s.host with disk := s.host.disk.withFile loc (Encoding.utf8 text) } }) :=
    Engine.write_of he (hf.putText text op.createDirectories)
  have hundo : e.undoFile op ⟨true, .text text⟩ =
      e.write (.writeFile op.path (.text text) op.createDirectories) := by
    rcases ha with ha | ⟨ha, hbackup⟩ <;> rw [Engine.undoFile, ha]
    · rfl
    · dsimp only
      rw [Engine.undelete, hbackup]
      rfl
  have hrest : ((do
      e.undoFile op ⟨true, .text text⟩
      release filesPart slot
      return none : Work Windows (Option String)).on s).2.host.disk =
        s.host.disk.withFile loc (Encoding.utf8 text) := by
    rw [hundo, Act.on_bind_of_ok hwrite]
    rfl
  rcases ha with ha | ⟨ha, -⟩ <;> rw [Engine.restoreFile, ha] <;> dsimp only <;>
    rw [Act.on_bind_of_ok hcaptured] <;> exact hrest

end FileOperation.Replaces

/-- Applying and reverting the operation leaves the bytes of the noted text. -/
theorem FileOperation.Replaces.taken_back {t : Tweak} (ha : op.Replaces)
    (he : e.mutator = w.mutator) (hf : w.Finds op.path p loc s.host)
    (hbytes : s.host.disk.at? loc = some (.file bytes))
    (hsmall : bytes.length ≤ WindowsAccess.maxRead) (htext : Encoding.decode bytes = .ok text)
    (hcheck : e.skipIfApplied = false ∨ e.detector = none) (hmay : e.mayRun t.operations = true)
    (hops : t.operations = { files := [op] }) (hr : t.isReversible = true)
    (hu : t.undo? = none) (hstore : s.store = none)
    (hfree : Assoc.get? ⟨t.id, .apply, 0⟩ s.memory.files = none) :
    ∃ r s', (e.revert (fun _ => false) t).on ((e.apply (fun _ => false) t).on s).2 = (.ok r, s') ∧
      ∀ loc', s'.host.disk.at? loc' =
        if loc' = loc then some (.file (Encoding.utf8 (Encoding.unified text)))
        else s.host.disk.at? loc' := by
  have hdisk {s s' : Session Windows} (hcore : s'.core = s.core) : s'.host.disk = s.host.disk :=
    congrArg Core.disk hcore
  have hfiles {s s' : Session Windows} (hcore : s'.core = s.core) :
      s'.memory.files = s.memory.files :=
    congrArg (fun c : Core Windows => c.memory.files) hcore
  have hsteps : e.runSteps t.id .apply t.operations =
      .ok [⟨op.describe, e.runFile ⟨t.id, .apply, 0⟩ op⟩] := by rw [hops]; rfl
  have hback : e.restoreSteps t.id t.operations =
      .ok [⟨Engine.undoing "Restore" op.describe, e.restoreFile ⟨t.id, .apply, 0⟩ op⟩] := by
    rw [hops]; rfl
  obtain ⟨r, s', s₁, s₂, hcalls, hcore₁, hcore₂, hcore'⟩ :=
    Engine.there_and_back hcheck hmay hr hu hsteps hback hstore
  rw [← hdisk hcore₁] at hbytes
  rw [← hfiles hcore₁] at hfree
  have hf₁ : w.Finds op.path p loc s₁.host :=
    hf.of_only (by rw [hdisk hcore₁]; exact .refl hf.file)
  obtain ⟨honly, hnoted⟩ := ha.run he hf₁ hbytes hsmall htext hfree
  rw [← hdisk hcore₂] at honly
  rw [← hfiles hcore₂] at hnoted
  have hrestore := ha.restore he (hf₁.of_only honly) hnoted
  rw [← hdisk hcore'] at hrestore
  refine ⟨r, s', hcalls, fun loc' => ?_⟩
  rw [hrestore, at?_withFile honly.file]
  by_cases hloc : loc' = loc
  · rw [if_pos hloc, if_pos hloc.symm]
  · rw [if_neg hloc, if_neg (Ne.symm hloc), honly.others loc' hloc, hdisk hcore₁]

/-- **A file comes back with the bytes of its text, and its line ends are newlines.**  Applying and
reverting a tweak that writes over a small file of UTF-8, or deletes it without a backup, leaves all
other files alone and this one with unified line ends, so the file is as it was if and only if there
is no carriage return in it. -/
theorem Engine.text_kept {t : Tweak} (ha : op.Replaces) (he : e.mutator = w.mutator)
    (hf : w.Finds op.path p loc s.host) (hbytes : s.host.disk.at? loc = some (.file bytes))
    (hsmall : bytes.length ≤ WindowsAccess.maxRead) (htext : Encoding.decode bytes = .ok text)
    (hcheck : e.skipIfApplied = false ∨ e.detector = none) (hmay : e.mayRun t.operations = true)
    (hops : t.operations = { files := [op] }) (hr : t.isReversible = true)
    (hu : t.undo? = none) (hstore : s.store = none)
    (hfree : Assoc.get? ⟨t.id, .apply, 0⟩ s.memory.files = none) :
    ∃ r s', (e.revert (fun _ => false) t).on ((e.apply (fun _ => false) t).on s).2 = (.ok r, s') ∧
      (∀ loc', s'.host.disk.at? loc' =
        if loc' = loc then some (.file (Encoding.utf8 (Encoding.unified text)))
        else s.host.disk.at? loc') ∧
      ((∀ loc', s'.host.disk.at? loc' = s.host.disk.at? loc') ↔ 13 ∉ bytes) := by
  obtain ⟨r, s', hcalls, hfiles⟩ :=
    ha.taken_back he hf hbytes hsmall htext hcheck hmay hops hr hu hstore hfree
  refine ⟨r, s', hcalls, hfiles, ?_⟩
  have hsame : (∀ loc', s'.host.disk.at? loc' = s.host.disk.at? loc') ↔
      Encoding.utf8 (Encoding.unified text) = Encoding.utf8 text := by
    rw [Encoding.utf8_of_decode htext]
    constructor
    · intro h
      have hloc := (hfiles loc).symm.trans (h loc)
      rw [if_pos rfl, hbytes] at hloc
      cases hloc
      rfl
    · intro h loc'
      rw [hfiles, h]
      split
      · next hloc => rw [hloc, hbytes]
      · rfl
  rw [hsame, Encoding.utf8_unified_iff, Encoding.utf8_of_decode htext]

/-- A single file in the working directory. -/
def fileSample (bytes : List UInt8) : Session Windows :=
  { host := { machine := {}, disk := { entries := [(["f.txt"], .file bytes)] } } }

/-- Writes over this file. -/
def overwritingOperation : FileOperation :=
  { action := .createFile, path := .text "f.txt", content := .text "x" }

def overwritingTweak : Tweak :=
  { id := "t", name := .text "T", operations := { files := [overwritingOperation] } }

theorem fileSample_finds (bytes : List UInt8) : WindowsAccess.Finds {} overwritingOperation.path
    (.ofText "f.txt") ["f.txt"] (fileSample bytes).host where
  named := by rfl
  located := by rfl
  here := rfl
  file := nofun

/-- A file of two lines is written over, and has its bytes again. -/
theorem sample_lines_kept : ∃ r s',
    (plainEngine.revert (fun _ => false) overwritingTweak).on
      ((plainEngine.apply (fun _ => false) overwritingTweak).on (fileSample [97, 10, 98])).2 =
        (.ok r, s') ∧
    ∀ loc, s'.host.disk.at? loc = (fileSample [97, 10, 98]).host.disk.at? loc := by
  obtain ⟨r, s', hcalls, -, hsame⟩ := Engine.text_kept (e := plainEngine) (t := overwritingTweak)
    (s := fileSample [97, 10, 98]) (.inl rfl) rfl (fileSample_finds _) rfl (by decide) (by rfl)
    (.inr rfl) rfl rfl rfl rfl rfl rfl
  exact ⟨r, s', hcalls, hsame.mpr (by decide)⟩

/-- A file with both characters at the end of a line has lost one of them. -/
theorem sample_return_lost : ∃ r s',
    (plainEngine.revert (fun _ => false) overwritingTweak).on
      ((plainEngine.apply (fun _ => false) overwritingTweak).on (fileSample [97, 13, 10, 98])).2 =
        (.ok r, s') ∧ s'.host.disk.at? ["f.txt"] = some (.file [97, 10, 98]) := by
  obtain ⟨r, s', hcalls, hfiles⟩ := FileOperation.Replaces.taken_back (e := plainEngine)
    (t := overwritingTweak) (s := fileSample [97, 13, 10, 98]) (.inl rfl) rfl (fileSample_finds _)
    rfl (by decide) (by rfl) (.inr rfl) rfl rfl rfl rfl rfl rfl
  exact ⟨r, s', hcalls, (hfiles _).trans rfl⟩

end
end TweakEngine
