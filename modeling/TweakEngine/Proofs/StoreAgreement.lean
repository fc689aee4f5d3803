/-
# An open store and its directory

An open store has its index in memory, and the directory has it in a file.  A call changes
the index in memory before the file, and before it removes the file of a snapshot, so a call
that fails in between leaves a store that says of one tweak something else than a store which
is opened anew.  `Watch` follows a store through calls, openings and changes that others make
in the directory: the store of the last call that went through is the one that the directory
gives (`Watch.Holds`), and the open one differs from it only on tweaks for which a call has
failed since then (`Watch.agrees`).
-/

import TweakEngine.Proofs.BrokenFiles
import TweakEngine.Proofs.SnapshotHistories

namespace TweakEngine

/-! ## Changes of one file -/

namespace Disk

variable {d : Disk} {p : Path}

/-- Writing a JSON file fails and changes nothing, or leaves the file; it does not fail where a
file may stand. -/
theorem writeJson_cases (d : Disk) (p : Path) {x : Datum} (hx : x.Exact) :
    (∃ f, (writeJson p x).on d = (.error f, d) ∧
      ∀ loc, d.locate p = .ok loc → d.at? loc = some .directory) ∨
    ∃ loc, d.locate p = .ok loc ∧ d.at? loc ≠ some .directory ∧
      (writeJson p x).on d = (.ok (), d.withFile loc (Json.fileBytes x)) := by
  cases hlocate : d.locate p with
  | error f =>
    refine .inl ⟨f, ?_, nofun⟩
    rw [writeJson, Json.foreign?_exact hx]
    exact writeText_on_error hlocate _
  | ok loc =>
    by_cases hdir : d.at? loc = some .directory
    · refine .inl ⟨.system (.onPath .isDirectory p.text), ?_, fun loc' hloc' => by
        rw [← Except.ok.inj hloc']
        exact hdir⟩
      rw [writeJson, Json.foreign?_exact hx]
      dsimp only
      rw [writeText, writeBytes, writable, Act.on_bind, Act.on_bind, locating_on hlocate]
      dsimp only
      rw [Act.on_bind, Act.on_view, hdir]
      rfl
    · exact .inr ⟨loc, rfl, hdir, writeJson_on hlocate hdir hx⟩

/-- Removing a file fails and changes nothing, or the file is gone. -/
theorem unlink_cases (d : Disk) (p : Path) :
    (∃ f, (unlink p).on d = (.error f, d)) ∨
    ∃ loc, d.at? loc ≠ some .directory ∧ (unlink p).on d = (.ok (), d.without loc) := by
  cases hlocate : d.locate p with
  | error f =>
    refine .inl ⟨f, ?_⟩
    rw [unlink, locating, Act.on_bind, Act.on_of, hlocate]
  | ok loc =>
    cases hat : d.at? loc with
    | none =>
      refine .inl ⟨.system (.onPath .notFound p.text), ?_⟩
      rw [unlink, Act.on_bind, locating_on hlocate]
      dsimp only
      rw [Act.on_bind, Act.on_view, hat]
      rfl
    | some entry =>
      cases entry with
      | directory =>
        refine .inl ⟨.system (.onPath .isDirectory p.text), ?_⟩
        rw [unlink, Act.on_bind, locating_on hlocate]
        dsimp only
        rw [Act.on_bind, Act.on_view, hat]
        rfl
      | file bytes =>
        refine .inr ⟨loc, fun hdir => ?_, unlink_on hlocate hat⟩
        rw [hat] at hdir
        cases hdir

/-- The JSON value that is read from what stands at a place. -/
def jsonAt (p : Path) : Entry → Except Failure Datum
  | .file bytes => textOf bytes >>= Json.read
  | .directory => .error (.system (.onPath .isDirectory p.text))

theorem readJson_at {loc : List String} (h : d.locate p = .ok loc) {e : Entry}
    (he : d.at? loc = some e) : (readJson p).on d = (jsonAt p e, d) := by
  have hview : (Act.view fun d : Disk => d.at? loc).on d = (.ok (some e), d) := by rw [← he]; rfl
  rw [readJson, readText, readBytes, bind_assoc, bind_assoc, Act.on_bind_of_ok (locating_on h),
    bind_assoc, Act.on_bind_of_ok hview]
  cases e with
  | directory => rfl
  | file bytes =>
    rw [jsonAt]
    dsimp only
    rw [Act.on_bind_of_ok (Act.on_pure _ _), Act.on_bind, Act.on_result]
    cases textOf bytes <;> rfl

end Disk

namespace Snapshot

open Session Store

/-! ## What opening finds -/

/-- The store that opening a directory gives. -/
def Store.found (directory : Path) : Option TweakEngine.Entry → Except Failure Store
  | none => .ok { directory }
  | some entry =>
    match Disk.jsonAt (Store.indexFile { directory }) entry >>= readIndex with
    | .ok index => .ok { directory, index }
    | .error f => if isIndexFault f then .ok { directory } else .error f

/-- A directory stands at a place, and the place of its index is known. -/
structure Stands (directory : Path) (d : Disk) (dir : List String) : Prop where
  located : d.locate directory = .ok dir
  folder : d.at? dir = some .directory
  index : d.locate (Store.indexFile { directory }) = .ok (dir ++ [indexName])

section

variable {μ : Type} {directory : Path} {d d' : Disk} {dir : List String} {st st' : Store}

theorem Stands.of_sameFolders (h : Stands directory d dir) (hd : Disk.SameFolders d d') :
    Stands directory d' dir :=
  ⟨hd.locate h.located, (hd.folder _).mpr h.folder, hd.locate h.index⟩

/-- Opening a directory that stands depends on what stands at the place of its index. -/
theorem openAt_found (h : Host μ) (hd : Stands directory h.disk dir) :
    ∃ h', (openAt directory).on h = (found directory (h.disk.at? (dir ++ [indexName])), h') ∧
      h'.disk = h.disk ∧ h'.machine = h.machine := by
  have hmake : (Host.onDisk (Disk.makeDirs directory) : Call μ Unit).on h = (.ok (), h) := by
    rw [Host.onDisk, Part.on_lift, Host.diskPart, Disk.makeDirs_on hd.located hd.folder]
  have hpresent : (Host.onDisk (Disk.present (Store.indexFile { directory })) : Call μ Bool).on h =
      (.ok (h.disk.at? (dir ++ [indexName])).isSome, h) := by
    rw [Host.onDisk, Part.on_lift, Host.diskPart, Disk.present_on hd.index]
  rw [openAt, Act.on_bind_of_ok hmake, Act.on_bind_of_ok hpresent]
  cases hat : h.disk.at? (dir ++ [indexName]) with
  | none => exact ⟨h, rfl, rfl, rfl⟩
  | some entry =>
    have hread : (do
        Act.result (readIndex (← Host.onDisk (Disk.readJson (Store.indexFile { directory })))) :
          Call μ (Assoc String Entry)).on h =
        (Disk.jsonAt (Store.indexFile { directory }) entry >>= readIndex, h) := by
      rw [Act.on_bind, Host.onDisk, Part.on_lift, Host.diskPart, Disk.readJson_at hd.index hat]
      cases Disk.jsonAt (Store.indexFile { directory }) entry <;> rfl
    dsimp only
    rw [Option.isSome_some, if_neg (by decide), Act.rescue, Act.on_bind, Act.on_bind,
      Act.on_attempt, hread, found]
    cases hindex : Disk.jsonAt (Store.indexFile { directory }) entry >>= readIndex with
    | ok index => exact ⟨h, rfl, rfl, rfl⟩
    | error f =>
      dsimp only
      cases hfault : isIndexFault f with
      | true =>
        simp only [if_true]
        exact ⟨_, rfl, rfl, rfl⟩
      | false =>
        simp only [Bool.false_eq_true, if_false]
        exact ⟨h, rfl, rfl, rfl⟩

theorem directory_of_found {x : Option TweakEngine.Entry} (h : found directory x = .ok st) :
    st.directory = directory := by
  unfold found at h
  split at h
  · rw [← Except.ok.inj h]
  · split at h
    · rw [← Except.ok.inj h]
    · split at h
      · rw [← Except.ok.inj h]
      · cases h

theorem reopens_of_found (hd : Stands directory d dir)
    (h : found directory (d.at? (dir ++ [indexName])) = .ok st) : st.Reopens μ d := by
  rintro host rfl
  obtain ⟨host', hopen, hdisk, hmachine⟩ := openAt_found host hd
  rw [h] at hopen
  exact ⟨host', directory_of_found h ▸ hopen, hdisk, hmachine⟩

theorem found_of_reopens (host : Host μ) (hd : Stands st.directory host.disk dir)
    (h : st.Reopens μ host.disk) :
    found st.directory (host.disk.at? (dir ++ [indexName])) = .ok st := by
  obtain ⟨host₁, hopen₁, -, -⟩ := openAt_found host hd
  obtain ⟨host₂, hopen₂, -, -⟩ := h host rfl
  exact congrArg Prod.fst (hopen₁.symm.trans hopen₂)

/-- A written index is found. -/
theorem found_written (hs : st.Sound) :
    found st.directory (some (.file (Json.fileBytes st.indexDatum))) = .ok st := by
  have hread : Disk.jsonAt (Store.indexFile { directory := st.directory })
      (.file (Json.fileBytes st.indexDatum)) >>= readIndex = .ok st.index := by
    rw [Disk.jsonAt, Json.fileBytes, Json.textOf_write hs.indexDatum, ok_bind,
      Json.read_write hs.indexDatum, ok_bind, hs.readIndex]
  rw [found, hread]

end

/-! ## Calls -/

/-- How a call ends: the index was written, the call has failed, or there was nothing to write. -/
inductive Outcome
  | settled
  | failed
  | idle
  deriving DecidableEq

/-- How saving ends. -/
def Outcome.ofSave : Except Failure (Option Path) → Outcome
  | .ok (some _) => settled
  | .ok none => idle
  | .error _ => failed

/-- How deleting ends. -/
def Outcome.ofDelete : Except Failure Bool → Outcome
  | .ok true => settled
  | .ok false => idle
  | .error _ => failed

variable {μ : Type} {directory : Path} {dir : List String} {st st' : Store} {s : Session μ}

/-- A session has an open store in a directory that stands. -/
structure Open (s : Session μ) (st : Store) (directory : Path) (dir : List String) : Prop where
  store : s.store = some st
  named : st.directory = directory
  sound : st.Sound
  stands : Stands directory s.host.disk dir

/-- What the place of the index holds. -/
def indexEntry (s : Session μ) (dir : List String) : Option TweakEngine.Entry :=
  s.host.disk.at? (dir ++ [indexName])

/-- What a call about a key leaves: when it has settled, the directory gives the open store; when
it has failed, the index file is as before and the open store differs at the key at most. -/
def Leaves (s s' : Session μ) (st : Store) (directory : Path) (dir : List String) (key : String) :
    Outcome → Prop
  | .settled => ∃ st', Open s' st' directory dir ∧ found directory (indexEntry s' dir) = .ok st'
  | .failed => ∃ st', Open s' st' directory dir ∧ indexEntry s' dir = indexEntry s dir ∧
      ∀ k, k ≠ key → Assoc.get? k st'.index = Assoc.get? k st.index
  | .idle => Open s' st directory dir ∧ indexEntry s' dir = indexEntry s dir

section

variable {t : Tweak} {s' s₁ : Session μ} {key : String}

theorem Open.of_core (h : Open s st directory dir) (hstore : s'.core.store = s.core.store)
    (hdisk : s'.core.disk = s.core.disk) : Open s' st directory dir where
  store := (show s'.store = s.store from hstore).trans h.store
  named := h.named
  sound := h.sound
  stands := (show s'.host.disk = s.host.disk from hdisk) ▸ h.stands

theorem indexEntry_of_core (hdisk : s'.core.disk = s.core.disk) :
    indexEntry s' dir = indexEntry s dir :=
  congrArg (fun d : Disk => d.at? (dir ++ [indexName])) hdisk

/-- Writing the index at the end of a call, when the store has changed at one key and no
directory has. -/
theorem saveIndex_leaves {α : Type} (x : α) (text : String) (hs₁ : Open s₁ st' directory dir)
    (hd : Disk.SameFolders s.host.disk s₁.host.disk)
    (hkeys : ∀ k, k ≠ key → Assoc.get? k st'.index = Assoc.get? k st.index) :
    ∃ r s', (do
        onHost st'.saveIndex
        say .info speaker text
        return x).on s₁ = (r, s') ∧
      (r = .ok x ∧ Leaves s s' st directory dir key .settled ∨
        (∃ f, r = .error f) ∧ Leaves s s' st directory dir key .failed) := by
  have hfile : st'.indexFile = Store.indexFile { directory } := by
    rw [indexFile, indexFile, hs₁.named]
  rcases Disk.writeJson_cases s₁.host.disk st'.indexFile hs₁.sound.indexDatum with
    ⟨f, hwrite, hfolder⟩ | ⟨loc, hloc, hfree, hwrite⟩
  · obtain ⟨s₂, hs₂, hcore₂⟩ := onDisk_on (s := s₁) hwrite
    have hkept : indexEntry s₁ dir = indexEntry s dir := by
      have hdir := hfolder (dir ++ [indexName]) (by rw [hfile]; exact hs₁.stands.index)
      exact hdir.trans ((hd.folder _).mp hdir).symm
    refine ⟨.error f, s₂, ?_, .inr ⟨⟨f, rfl⟩, st', hs₁.of_core (by rw [hcore₂]) (by rw [hcore₂]; rfl),
      (indexEntry_of_core (by rw [hcore₂]; rfl)).trans hkept, hkeys⟩⟩
    rw [Act.on_bind, saveIndex, hs₂]
  · obtain ⟨s₂, hs₂, hcore₂⟩ := onDisk_on (s := s₁) hwrite
    obtain rfl : dir ++ [indexName] = loc := Except.ok.inj (hs₁.stands.index.symm.trans (hfile ▸ hloc))
    obtain ⟨s₃, hs₃, hcore₃⟩ := say_on .info speaker text s₂
    have hdisk : s₃.host.disk =
        s₁.host.disk.withFile (dir ++ [indexName]) (Json.fileBytes st'.indexDatum) :=
      congrArg Core.disk (hcore₃.trans hcore₂)
    have hentry : indexEntry s₃ dir = some (.file (Json.fileBytes st'.indexDatum)) := by
      rw [indexEntry, hdisk, Disk.at?_withFile hfree, if_pos rfl]
    refine ⟨.ok x, s₃, ?_, .inl ⟨rfl, st', ⟨?_, hs₁.named, hs₁.sound, ?_⟩, ?_⟩⟩
    · rw [Act.on_bind, saveIndex, hs₂]
      dsimp only
      rw [Act.on_bind_of_ok hs₃]
      rfl
    · exact (congrArg Core.store (hcore₃.trans hcore₂)).trans hs₁.store
    · exact hdisk ▸ hs₁.stands.of_sameFolders (Disk.sameFolders_withFile hfree _)
    · rw [hentry]
      exact hs₁.named ▸ found_written hs₁.sound

/-- **Saving** settles, fails, or has nothing to write. -/
theorem save_leaves (hs : Open s st directory dir) (ht : t.Storable) (hm : s.core.memory.Tidy t.id) :
    Leaves s ((save st t).on s).2 st directory dir t.key (.ofSave ((save st t).on s).1) := by
  by_cases hcapture : s.core.memory.HasCapture t
  · have hexact : (snapshotOf t s.memory s.host.clock).1.Exact := snapshotOf_exact hm s.host.clock
    rw [save_eq st hcapture]
    rcases Disk.writeJson_cases s.host.disk (st.fileFor t.id) hexact with
      ⟨f, hwrite, -⟩ | ⟨loc, -, hfree, hwrite⟩
    · obtain ⟨s₁, hs₁, hcore₁⟩ := onDisk_on (s := s) hwrite
      rw [Act.on_bind, hs₁]
      exact ⟨st, hs.of_core (by rw [hcore₁]) (by rw [hcore₁]; rfl),
        indexEntry_of_core (by rw [hcore₁]; rfl), fun _ _ => rfl⟩
    · obtain ⟨s₁, hs₁, hcore₁⟩ := onDisk_on (s := s) hwrite
      rw [Act.on_bind, hs₁]
      dsimp only
      generalize he : ({
        tweakId := .text t.id
        tweakName := t.name
        timestamp := .text s.host.clock.text
        filePath := .text (st.fileFor t.id).text
        operationCount := .int (snapshotOf t s.memory s.host.clock).2 } : Entry) = e
      have hentry : e.toDatum.Exact := by
        rw [← he]
        exact entry_exact ht s.memory s.host.clock _
      have hdisk : s₁.host.disk = s.host.disk.withFile loc _ := congrArg Core.disk hcore₁
      have hfolders : Disk.SameFolders s.host.disk s₁.host.disk :=
        hdisk ▸ Disk.sameFolders_withFile hfree _
      have hopen : Open { s₁ with store := some { st with index := Assoc.put t.key e st.index } }
          { st with index := Assoc.put t.key e st.index } directory dir :=
        ⟨rfl, hs.named, hs.sound.put hentry t.key, hs.stands.of_sameFolders hfolders⟩
      obtain ⟨r, s', hrun, hleaves⟩ := saveIndex_leaves (some (st.fileFor t.id))
        ("Saved snapshot for " ++ t.id ++ " (" ++ toString (snapshotOf t s.memory s.host.clock).2 ++
          " operations) to " ++ (st.fileFor t.id).text) hopen hfolders
        fun k (hk : k ≠ t.key) => (Assoc.get?_put _ _ _ _).trans (if_neg (Ne.symm hk))
      rw [Act.on_bind, putStore, Act.on_change]
      dsimp only
      rw [hrun]
      rcases hleaves with ⟨rfl, hleaves⟩ | ⟨⟨f, rfl⟩, hleaves⟩ <;> exact hleaves
  · obtain ⟨s', hs', hcore⟩ := save_on_none st hcapture
    rw [hs']
    exact ⟨hs.of_core (by rw [hcore]) (by rw [hcore]), indexEntry_of_core (by rw [hcore])⟩

/-- The store without the entry of a key. -/
def erased (st : Store) (key : String) : Store := { st with index := Assoc.erase key st.index }

theorem get?_erased {k : String} (hk : k ≠ key) :
    Assoc.get? k (erased st key).index = Assoc.get? k st.index :=
  (Assoc.get?_erase _ _ _).trans (if_neg (Ne.symm hk))

theorem Open.erased (hs : Open s st directory dir) (key : String)
    (hstore : s₁.store = some (erased st key)) (hd : Disk.SameFolders s.host.disk s₁.host.disk) :
    Open s₁ (Snapshot.erased st key) directory dir :=
  ⟨hstore, hs.named, hs.sound.erase _, hs.stands.of_sameFolders hd⟩

/-- Deleting that fails when only the store has changed. -/
theorem Open.leaves_erased (hs : Open s st directory dir)
    (hcore : s₁.core = { s.core with store := some (Snapshot.erased st key) }) :
    Leaves s s₁ st directory dir key .failed := by
  have hdisk : s₁.host.disk = s.host.disk := congrArg Core.disk hcore
  exact ⟨Snapshot.erased st key, hs.erased key (congrArg Core.store hcore) (hdisk ▸ .refl _),
    indexEntry_of_core hdisk, fun _ => get?_erased⟩

/-- The end of deleting: the index is written without the entry. -/
theorem Open.saveErased_leaves (hs : Open s st directory dir)
    (hstore : s₁.store = some (Snapshot.erased st key))
    (hd : Disk.SameFolders s.host.disk s₁.host.disk) (text : String) :
    Leaves s ((do
        onHost (Snapshot.erased st key).saveIndex
        say .info speaker text
        return true : Work μ Bool).on s₁).2 st directory dir key
      (.ofDelete ((do
        onHost (Snapshot.erased st key).saveIndex
        say .info speaker text
        return true : Work μ Bool).on s₁).1) := by
  obtain ⟨r, s', hrun, hleaves⟩ := saveIndex_leaves true text (hs.erased key hstore hd) hd
    fun _ => get?_erased
  rw [hrun]
  rcases hleaves with ⟨rfl, hleaves⟩ | ⟨⟨f, rfl⟩, hleaves⟩ <;> exact hleaves

/-- **Deleting** settles, fails, or has nothing to delete. -/
theorem delete_leaves (hs : Open s st directory dir) :
    Leaves s ((delete st t.id : Work μ Bool).on s).2 st directory dir t.key
      (.ofDelete ((delete st t.id : Work μ Bool).on s).1) := by
  cases he : Assoc.get? t.key st.index with
  | none =>
    rw [delete_on_unlisted he]
    exact ⟨hs, rfl⟩
  | some e =>
    have he' : Assoc.get? (Text.fold t.id) st.index = some e := he
    have herased : { st with index := Assoc.erase (Text.fold t.id) st.index } = erased st t.key := rfl
    rw [delete]
    dsimp only
    rw [he']
    dsimp only
    rw [Act.on_bind, putStore, Act.on_change, herased]
    dsimp only
    rw [Act.on_bind, Act.on_result]
    cases Path.ofDatum e.filePath with
    | error f => exact hs.leaves_erased rfl
    | ok file =>
      have hpresent : (onHost (Host.onDisk (Disk.present file)) : Work μ Bool).on
          { s with store := some (erased st t.key) } =
            ((s.host.disk.look file).map Option.isSome, { s with store := some (erased st t.key) }) :=
        rfl
      dsimp only
      rw [Act.on_bind, hpresent]
      cases s.host.disk.look file with
      | error f => exact hs.leaves_erased rfl
      | ok there =>
        cases there with
        | none =>
          have hstore : ({ s with store := some (erased st t.key) } : Session μ).store =
            some (erased st t.key) := rfl
          exact hs.saveErased_leaves hstore (.refl _) _
        | some entry =>
          dsimp only [Except.map, Option.isSome_some]
          rw [if_pos rfl, Act.on_bind]
          rcases Disk.unlink_cases s.host.disk file with ⟨f, hunlink⟩ | ⟨loc, hfree, hunlink⟩
          · obtain ⟨s₁, hs₁, hcore₁⟩ :=
              onDisk_on (s := { s with store := some (erased st t.key) }) hunlink
            rw [hs₁]
            exact hs.leaves_erased hcore₁
          · obtain ⟨s₁, hs₁, hcore₁⟩ :=
              onDisk_on (s := { s with store := some (erased st t.key) }) hunlink
            rw [hs₁]
            refine hs.saveErased_leaves (congrArg Core.store hcore₁) ?_ _
            rw [show s₁.host.disk = _ from congrArg Core.disk hcore₁]
            exact Disk.sameFolders_without hfree

/-- **Loading** writes nothing. -/
theorem load_leaves (hs : Open s st directory dir) :
    Leaves s ((load st t).on s).2 st directory dir t.key .idle := by
  have hkeeps : (load st t : Work μ Bool).Keeps fun s => (s.store, s.host.disk) := by
    unfold load
    split
    · exact .bind (fun _ => rfl) fun _ => .pure _
    · refine .bind (.result _) fun file => .bind (fun _ => rfl) fun there => ?_
      split
      · exact .bind (fun _ => rfl) fun _ => .pure _
      · refine .bind (fun s => ?_) fun _ => .bind (fun _ => rfl) fun _ =>
          .bind (fun _ => rfl) fun _ => .pure _
        exact congrArg (Prod.mk s.store) (Disk.readJson_reads file s.host.disk)
  obtain ⟨hstore, hdisk⟩ := Prod.mk.inj (hkeeps s)
  exact ⟨hs.of_core hstore hdisk, indexEntry_of_core hdisk⟩

/-- Opening the directory again settles. -/
theorem reopen_leaves (hs : Open s st directory dir)
    (hfound : found directory (indexEntry s dir) = .ok st') (hsound : st'.Sound) :
    Leaves s (Use.reopen.on st s) st directory dir key .settled := by
  obtain ⟨h', hopen, hdisk, -⟩ := openAt_found s.host hs.stands
  have hopen' : (onHost (openAt st.directory) : Work μ Store).on s =
      (.ok st', { s with host := h' }) := by
    rw [onHost, Part.on_lift, hostPart, hs.named, hopen]
    exact congrArg (·, _) hfound
  rw [Use.on, Act.on_bind_of_ok hopen']
  refine ⟨st', ⟨rfl, directory_of_found hfound, hsound, ?_⟩, ?_⟩
  · exact (show _ = s.host.disk from hdisk) ▸ hs.stands
  · exact (congrArg (fun d : Disk => found directory (d.at? (dir ++ [indexName]))) hdisk).trans hfound

end

/-! ## Runs -/

/-- How a use of a store ends; opening it again settles. -/
def Use.outcome (st : Store) (s : Session μ) : Use → Outcome
  | .save t held => .ofSave ((Snapshot.save st t).on { s with memory := held }).1
  | .load .. => .idle
  | .delete t => .ofDelete ((Snapshot.delete st t.id : Work μ Bool).on s).1
  | .reopen => .settled

/-- What happens to a store: it is used, or others change the disk. -/
inductive Visit
  | use (u : Use)
  | outside (d : Disk)

namespace Visit

/-- The session after a visit. -/
def take (s : Session μ) : Visit → Session μ
  | use u => u.take s
  | outside d => { s with host := { s.host with disk := d } }

/-- How a visit ends. -/
def outcome (s : Session μ) : Visit → Outcome
  | use u => match s.store with
    | some st => u.outcome st s
    | none => .idle
  | outside _ => .idle

/-- The key of the tweak that a visit is about. -/
def key : Visit → String
  | use (.save t _) | use (.load t _) | use (.delete t) => t.key
  | use .reopen | outside _ => ""

/-- What is saved has the form of captures, and others leave the directory and its index. -/
def Fair (dir : List String) (s : Session μ) : Visit → Prop
  | use (.save t held) => t.Storable ∧ held.Tidy t.id
  | use _ => True
  | outside d => ∀ st, s.store = some st →
      Stands st.directory d dir ∧ d.at? (dir ++ [indexName]) = indexEntry s dir

end Visit

/-- A session, the store of the last call that went through, and the keys of the tweaks for
which a call has failed since then. -/
structure Watch (μ : Type) where
  session : Session μ
  kept : Store
  unsettled : List String := []

namespace Watch

/-- The watch after a visit. -/
def take (w : Watch μ) (v : Visit) : Watch μ :=
  let s := v.take w.session
  match v.outcome w.session with
  | .settled => { session := s, kept := s.store.getD w.kept }
  | .failed => { session := s, kept := w.kept, unsettled := v.key :: w.unsettled }
  | .idle => { w with session := s }

/-- The watch after a history. -/
def takeAll (w : Watch μ) (visits : List Visit) : Watch μ := visits.foldl take w

/-- Every visit of a history is a fair one. -/
def Fair (dir : List String) : Watch μ → List Visit → Prop
  | _, [] => True
  | w, v :: visits => v.Fair dir w.session ∧ Fair dir (w.take v) visits

/-- The directory gives the store of the last call that went through, and the open one has the
same keys but for those of failed calls. -/
structure Holds (w : Watch μ) (st : Store) (directory : Path) (dir : List String) : Prop where
  opened : Open w.session st directory dir
  sound : w.kept.Sound
  found : found directory (indexEntry w.session dir) = .ok w.kept
  alike : ∀ k ∉ w.unsettled, Assoc.has k w.kept.index = Assoc.has k st.index

variable {w : Watch μ} {v : Visit}

/-- A visit leaves what its outcome says. -/
theorem Holds.leaves (h : w.Holds st directory dir) (hv : v.Fair dir w.session) :
    Leaves w.session (v.take w.session) st directory dir v.key (v.outcome w.session) := by
  have hstore := h.opened.store
  cases v with
  | outside d =>
    obtain ⟨hstands, hindex⟩ := hv st hstore
    exact ⟨⟨hstore, h.opened.named, h.opened.sound, h.opened.named ▸ hstands⟩, hindex⟩
  | use u =>
    rw [Visit.take, Use.take, Visit.outcome, hstore]
    cases u with
    | save t held =>
      exact save_leaves (s := { w.session with memory := held })
        ⟨hstore, h.opened.named, h.opened.sound, h.opened.stands⟩ hv.1 hv.2
    | load t held =>
      exact load_leaves (s := { w.session with memory := held })
        ⟨hstore, h.opened.named, h.opened.sound, h.opened.stands⟩
    | delete t => exact delete_leaves h.opened
    | reopen => exact reopen_leaves h.opened h.found h.sound

/-- **One visit** keeps the watch right. -/
theorem Holds.take (h : w.Holds st directory dir) (hv : v.Fair dir w.session) :
    ∃ st', (w.take v).Holds st' directory dir := by
  have hleaves := h.leaves hv
  rw [Watch.take]
  cases houtcome : v.outcome w.session with
  | settled =>
    rw [houtcome] at hleaves
    obtain ⟨st', hopened, hfound⟩ := hleaves
    refine ⟨st', hopened, ?_, ?_, fun _ _ => ?_⟩
    all_goals simp only [hopened.store, Option.getD_some]
    · exact hopened.sound
    · exact hfound
  | failed =>
    rw [houtcome] at hleaves
    obtain ⟨st', hopened, hindex, hkeys⟩ := hleaves
    refine ⟨st', hopened, h.sound, (congrArg _ hindex).trans h.found, fun k hk => ?_⟩
    obtain ⟨hne, hk⟩ := not_or.mp (List.mem_cons.not.mp hk)
    rw [h.alike k hk, Assoc.has, Assoc.has, hkeys k hne]
  | idle =>
    rw [houtcome] at hleaves
    obtain ⟨hopened, hindex⟩ := hleaves
    exact ⟨st, hopened, h.sound, (congrArg _ hindex).trans h.found, h.alike⟩

/-- A history keeps the watch right. -/
theorem Holds.takeAll (h : w.Holds st directory dir) {visits : List Visit}
    (hvisits : w.Fair dir visits) : ∃ st', (w.takeAll visits).Holds st' directory dir := by
  induction visits generalizing w st with
  | nil => exact ⟨st, h⟩
  | cons v visits ih =>
    obtain ⟨st', h'⟩ := h.take hvisits.1
    exact ih h' hvisits.2

/-- **What an open store and its directory agree on.**  A store was opened in a directory.
After saving, loading and deleting, after opening again and after changes that others make
elsewhere, in any order and also when calls fail, opening the directory gives the store as it was
after the last call that went through, and the open store gives the same answers about all
snapshots but those of the tweaks for which a call has failed since then. -/
theorem agrees (hstore : w.session.store = some w.kept) (hsound : w.kept.Sound)
    (hstands : Stands w.kept.directory w.session.host.disk dir)
    (hopened : w.kept.Reopens μ w.session.host.disk) {visits : List Visit}
    (hvisits : w.Fair dir visits) :
    ∃ st, (w.takeAll visits).session.store = some st ∧
      (w.takeAll visits).kept.Reopens μ (w.takeAll visits).session.host.disk ∧
      ∀ id, Text.fold id ∉ (w.takeAll visits).unsettled →
        (w.takeAll visits).kept.has id = st.has id := by
  have hstart : w.Holds w.kept w.kept.directory dir :=
    ⟨⟨hstore, rfl, hsound, hstands⟩, hsound, found_of_reopens w.session.host hstands hopened,
      fun _ _ => rfl⟩
  obtain ⟨st, h⟩ := hstart.takeAll hvisits
  exact ⟨st, h.opened.store, reopens_of_found h.opened.stands h.found, fun id hid => h.alike _ hid⟩

/-- The entry of a snapshot in the root directory. -/
def sampleEntry (id : String) : Entry :=
  { tweakId := .text id
    tweakName := .text id
    timestamp := .text "2024-01-01T00:00:00"
    filePath := .text ("/" ++ id ++ ".json")
    operationCount := .int 1 }

/-- A store with two snapshots. -/
def sampleStore : Store :=
  { directory := ⟨.slash, []⟩, index := [("a", sampleEntry "a"), ("b", sampleEntry "b")] }

/-- The store in its directory; in place of the first snapshot there is a directory. -/
def sampleWatch : Watch Unit where
  session :=
    { host :=
        { machine := ()
          disk := { entries :=
            [(["snapshot_index.json"], .file (Json.fileBytes sampleStore.indexDatum)),
             (["a.json"], .directory)] } }
      store := some sampleStore }
  kept := sampleStore

theorem sampleStore_sound : sampleStore.Sound := by
  refine ⟨by decide, ?_⟩
  simp only [sampleStore, List.forall_mem_cons, List.not_mem_nil, false_implies, implies_true,
    and_true]
  have hcount : (Datum.int 1).Exact := by
    show _ ≤ _
    decide
  exact ⟨⟨by decide, trivial, trivial, trivial, trivial, hcount, trivial⟩,
    ⟨by decide, trivial, trivial, trivial, trivial, hcount, trivial⟩⟩

theorem stands_root (d : Disk) : Stands ⟨.slash, []⟩ d [] := ⟨rfl, rfl, rfl⟩

theorem sampleWatch_found :
    found sampleStore.directory (indexEntry sampleWatch.session []) = .ok sampleStore := by
  have hindex : indexEntry sampleWatch.session [] =
      some (.file (Json.fileBytes sampleStore.indexDatum)) := by
    rw [indexEntry, Disk.at?, if_neg (by decide), sampleWatch, Assoc.get?, if_pos (by decide)]
  rw [hindex]
  exact found_written sampleStore_sound

theorem sampleWatch_reopens : sampleWatch.kept.Reopens Unit sampleWatch.session.host.disk :=
  reopens_of_found (stands_root _) sampleWatch_found

/-- The first snapshot is deleted, which fails. -/
def sampleVisits : List Visit := [.use (.delete (sampleNamed "a"))]

/-- After the deletion that fails, the directory still has both snapshots; about the other tweak
the open store agrees. -/
theorem sample_blocked :
    sampleWatch.session.store = some sampleWatch.kept ∧ sampleWatch.kept.Sound ∧
      Stands sampleWatch.kept.directory sampleWatch.session.host.disk [] ∧
      sampleWatch.kept.Reopens Unit sampleWatch.session.host.disk ∧
      sampleWatch.Fair [] sampleVisits ∧ ∃ w st, sampleWatch.takeAll sampleVisits = w ∧
        w.session.store = some st ∧ w.kept.Reopens Unit w.session.host.disk ∧
        w.unsettled = ["a"] ∧ w.kept.has "a" = true ∧ w.kept.has "b" = true ∧ st.has "b" = true := by
  have hunsettled : (sampleWatch.takeAll sampleVisits).unsettled = ["a"] := by decide +kernel
  have hkept : (sampleWatch.takeAll sampleVisits).kept.has "a" = true ∧
      (sampleWatch.takeAll sampleVisits).kept.has "b" = true := by decide +kernel
  obtain ⟨st, hstore, hreopens, halike⟩ :=
    agrees (w := sampleWatch) rfl sampleStore_sound (stands_root _) sampleWatch_reopens
      (show sampleWatch.Fair [] sampleVisits from ⟨trivial, trivial⟩)
  generalize sampleWatch.takeAll sampleVisits = w at *
  exact ⟨rfl, sampleStore_sound, stands_root _, sampleWatch_reopens, ⟨trivial, trivial⟩, w, st, rfl,
    hstore, hreopens, hunsettled, hkept.1, hkept.2,
    (halike "b" (by rw [hunsettled]; decide)).symm.trans hkept.2⟩

/-- A deletion that fails is forgotten by a store that is opened anew: the open store has no
snapshot of the tweak, and the new one has it. -/
theorem sample_reappears :
    ∃ w st st' h, sampleWatch.takeAll sampleVisits = w ∧ w.session.store = some st ∧
      (openAt st.directory).on w.session.host = (.ok st', h) ∧
      st.has "a" = false ∧ st'.has "a" = true := by
  have hhas : (sampleWatch.takeAll sampleVisits).session.store.map (·.has "a") = some false := by
    decide +kernel
  have hkept : (sampleWatch.takeAll sampleVisits).kept.has "a" = true := by decide +kernel
  have hholds : sampleWatch.Holds sampleStore ⟨.slash, []⟩ [] :=
    ⟨⟨rfl, rfl, sampleStore_sound, stands_root _⟩, sampleStore_sound, sampleWatch_found,
      fun _ _ => rfl⟩
  obtain ⟨st, h⟩ := hholds.takeAll
    (show sampleWatch.Fair [] sampleVisits from ⟨trivial, trivial⟩)
  generalize sampleWatch.takeAll sampleVisits = w at *
  rw [h.opened.store] at hhas
  obtain ⟨host, hopen, -⟩ := openAt_found w.session.host h.opened.stands
  rw [show found _ (w.session.host.disk.at? _) = .ok w.kept from h.found] at hopen
  exact ⟨w, st, w.kept, host, rfl, h.opened.store, by rw [h.opened.named]; exact hopen,
    Option.some.inj hhas, hkept⟩

end Watch

end Snapshot
end TweakEngine
