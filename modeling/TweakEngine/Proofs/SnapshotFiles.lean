/-
# Snapshot files

A store whose files can be written in its directory (`Snapshot.Store.Placed`) keeps its
index on the disk as it has it: opening the directory again gives the same store
(`openAt_written`).  Saving writes the file of the tweak and the index (`save_on`), loading
adds the captures of the file to those in memory (`load_on`), and deleting takes the file
away (`delete_on`); none of them touches the file of another name.
-/

import TweakEngine.Execution.Session
import TweakEngine.Proofs.CaptureForms
import TweakEngine.Proofs.Files

namespace TweakEngine

/-- The bytes of a JSON file. -/
def Json.fileBytes (d : Datum) : List UInt8 := Encoding.utf8 (write fileLayout d)

/-- A tweak whose snapshots can be written: its name is a text, and its operations can be
counted in a file. -/
structure Tweak.Storable (t : Tweak) : Prop where
  name : t.name.IsText
  count : t.operations.count < 10 ^ Decimal.maxDigits

/-- Something is captured of a tweak. -/
def Memory.HasCapture (m : Memory) (t : Tweak) : Prop :=
  (∃ i < t.operations.registry.length, Assoc.get? ⟨t.id, .apply, i⟩ m.registry ≠ none) ∨
  (∃ i < t.operations.services.length, Assoc.get? ⟨t.id, .apply, i⟩ m.services ≠ none) ∨
  ∃ i < t.operations.files.length, Assoc.get? ⟨t.id, .apply, i⟩ m.files ≠ none

theorem Captures.length_indexed_eq_zero {α : Type} {c : Captures α} {id : String} {count : Nat} :
    (c.indexed id .apply count).length = 0 ↔ ∀ i < count, Assoc.get? ⟨id, .apply, i⟩ c = none := by
  rw [List.length_eq_zero_iff, List.eq_nil_iff_forall_not_mem]
  constructor
  · intro h i hi
    cases hc : Assoc.get? ⟨id, .apply, i⟩ c with
    | none => rfl
    | some a => exact absurd (mem_indexed.mpr ⟨hi, hc⟩) (h (i, a))
  · intro h e he
    obtain ⟨hi, hc⟩ := mem_indexed.mp he
    rw [h e.1 hi] at hc
    cases hc

theorem Captures.length_indexed_le {α : Type} (c : Captures α) (id : String) (count : Nat) :
    (c.indexed id .apply count).length ≤ count := by
  have h := List.length_filterMap_le (fun i => (Assoc.get? ⟨id, .apply, i⟩ c).map (i, ·))
    (List.range count)
  rwa [List.length_range] at h

namespace Snapshot

/-- Reading an entry back. -/
theorem Entry.ofDatum_toDatum (e : Entry) : Entry.ofDatum e.toDatum = .ok e := rfl

namespace Store

variable {μ : Type} {st : Store} {d d' : Disk} {dir : List String} {id : String} {t : Tweak}

/-! ## The index -/

/-- The entries of the index can be held exactly by a file. -/
structure Sound (st : Store) : Prop where
  nodup : (Assoc.keys st.index).Nodup
  exact : ∀ e ∈ st.index, e.2.toDatum.Exact

theorem Sound.put (h : st.Sound) {e : Entry} (he : e.toDatum.Exact) (key : String) :
    Sound { st with index := Assoc.put key e st.index } :=
  ⟨Assoc.nodup_put h.nodup, fun x hx => (Assoc.mem_put hx).elim (fun hxe => hxe ▸ he) (h.exact x)⟩

theorem Sound.erase (h : st.Sound) (key : String) :
    Sound { st with index := Assoc.erase key st.index } :=
  ⟨h.nodup.sublist (List.filter_sublist.map _), fun x hx => h.exact x (List.mem_filter.mp hx).1⟩

theorem Sound.indexDatum (h : st.Sound) : st.indexDatum.Exact := by
  have hfields : ∀ {es : List (String × Entry)}, (∀ e ∈ es, e.2.toDatum.Exact) →
      Datum.ExactFields (es.map fun e => (e.1, e.2.toDatum)) := by
    intro es hes
    induction es with
    | nil => trivial
    | cons e es ih =>
      exact ⟨hes e List.mem_cons_self, ih fun x hx => hes x (List.mem_cons_of_mem _ hx)⟩
  refine ⟨?_, hfields h.exact⟩
  have hkeys : Assoc.keys (st.index.map fun e => (e.1, e.2.toDatum)) = Assoc.keys st.index := by
    rw [Assoc.keys, List.map_map]
    rfl
  rw [hkeys]
  exact h.nodup

/-- Reading the index back. -/
theorem Sound.readIndex (h : st.Sound) : readIndex st.indexDatum = .ok st.index := by
  have hmap : ∀ es : List (String × Entry),
      (es.map fun e => (e.1, e.2.toDatum)).mapM (m := Except Failure)
        (fun e => do return (e.1, ← Entry.ofDatum e.2)) = .ok es := by
    intro es
    induction es with
    | nil => rfl
    | cons e es ih =>
      rw [List.map_cons, List.mapM_cons, ih]
      dsimp only
      rw [Entry.ofDatum_toDatum]
      rfl
  have hread : Store.readIndex st.indexDatum = (do
      return Assoc.ofList (← (st.index.map fun e => (e.1, e.2.toDatum)).mapM fun e => do
        return (e.1, ← Entry.ofDatum e.2))) := rfl
  rw [hread, hmap, ok_bind, Assoc.ofList_of_nodup h.nodup]
  rfl

/-! ## Places -/

/-- The name of the index file. -/
def indexName : String := "snapshot_index.json"

/-- The name of a snapshot file. -/
def fileName (id : String) : String :=
  let safe := (id.toList.filter fun c => Text.isAlphaNumeric c || c == '-' || c == '_').take maxName
  (if safe = [] then "tweak" else String.ofList safe) ++ ".json"

theorem plain_fileName (id : String) : Path.PlainName (fileName id) := by
  obtain ⟨name, hname, hsafe⟩ : ∃ name : String, fileName id = name ++ ".json" ∧
      '/' ∉ name.toList := by
    refine ⟨_, rfl, ?_⟩
    split
    · decide
    · rw [String.toList_ofList]
      intro h
      exact absurd (List.mem_filter.mp (List.mem_of_mem_take h)).2 (by decide)
  have hchars : (fileName id).toList = name.toList ++ ".json".toList := by
    rw [hname, String.toList_append]
  have hlen : 5 ≤ (fileName id).toList.length := by
    rw [hchars, List.length_append]
    exact Nat.le_add_left 5 _
  have hshort : ∀ short : String, short.toList.length < 5 → fileName id ≠ short := fun short h e =>
    absurd hlen (by rw [e]; omega)
  refine ⟨hshort "" (by decide), hshort "." (by decide), hshort ".." (by decide), ?_⟩
  rw [hchars, List.mem_append, not_or]
  exact ⟨hsafe, by decide⟩

/-- The directory of a store exists, and the index can be written there. -/
structure Placed (st : Store) (d : Disk) (dir : List String) : Prop where
  normal : st.directory.Normal
  located : d.locate st.directory = .ok dir
  folder : d.at? dir = some .directory
  index : d.locate st.indexFile = .ok (dir ++ [indexName])
  indexFree : d.at? (dir ++ [indexName]) ≠ some .directory

/-- The snapshot file of a tweak can be written. -/
structure Room (st : Store) (d : Disk) (dir : List String) (id : String) : Prop where
  located : d.locate (st.fileFor id) = .ok (dir ++ [fileName id])
  free : d.at? (dir ++ [fileName id]) ≠ some .directory

theorem Placed.of_sameFolders {st' : Store} (h : st.Placed d dir) (hd : Disk.SameFolders d d')
    (hst : st'.directory = st.directory) : st'.Placed d' dir := by
  refine ⟨hst ▸ h.normal, hst ▸ hd.locate h.located, (hd.folder _).mpr h.folder, ?_,
    fun he => h.indexFree ((hd.folder _).mp he)⟩
  rw [indexFile, hst]
  exact hd.locate h.index

theorem Room.of_sameFolders {st' : Store} (h : st.Room d dir id) (hd : Disk.SameFolders d d')
    (hst : st'.directory = st.directory) : st'.Room d' dir id := by
  refine ⟨?_, fun he => h.free ((hd.folder _).mp he)⟩
  rw [fileFor, hst]
  exact hd.locate h.located

/-! ## Opening -/

/-- Opening the directory again gives the store as it is, and changes nothing. -/
def Reopens (μ : Type) (st : Store) (d : Disk) : Prop :=
  ∀ h : Host μ, h.disk = d → ∃ h', (openAt st.directory).on h = (.ok st, h') ∧
    h'.disk = d ∧ h'.machine = h.machine

/-- Opening a directory without an index. -/
theorem openAt_missing (hp : st.Placed d dir) (he : d.at? (dir ++ [indexName]) = none)
    (hi : st.index = []) : st.Reopens μ d := by
  rintro h rfl
  have hmake : (Host.onDisk (Disk.makeDirs st.directory) : Call μ Unit).on h = (.ok (), h) := by
    rw [Host.onDisk, Part.on_lift, Host.diskPart, Disk.makeDirs_on hp.located hp.folder]
  have hpresent : (Host.onDisk (Disk.present st.indexFile) : Call μ Bool).on h = (.ok false, h) := by
    rw [Host.onDisk, Part.on_lift, Host.diskPart, Disk.present_on hp.index, he]
    rfl
  have hst : st = { directory := st.directory } := by rw [← hi]
  refine ⟨h, ?_, rfl, rfl⟩
  rw [openAt, Act.on_bind, hmake]
  dsimp only
  rw [Act.on_bind, show indexFile { directory := st.directory } = st.indexFile from rfl, hpresent]
  rw [hst]
  rfl

/-- **Opening a directory again** gives the store whose index was written. -/
theorem openAt_written (hp : st.Placed d dir) (hs : st.Sound)
    (he : d.at? (dir ++ [indexName]) = some (.file (Json.fileBytes st.indexDatum))) :
    st.Reopens μ d := by
  rintro h rfl
  have hmake : (Host.onDisk (Disk.makeDirs st.directory) : Call μ Unit).on h = (.ok (), h) := by
    rw [Host.onDisk, Part.on_lift, Host.diskPart, Disk.makeDirs_on hp.located hp.folder]
  have hpresent : (Host.onDisk (Disk.present st.indexFile) : Call μ Bool).on h = (.ok true, h) := by
    rw [Host.onDisk, Part.on_lift, Host.diskPart, Disk.present_on hp.index, he]
    rfl
  have hread : (Host.onDisk (Disk.readJson st.indexFile) : Call μ Datum).on h =
      (.ok st.indexDatum, h) := by
    rw [Host.onDisk, Part.on_lift, Host.diskPart, Disk.readJson_on hp.index hs.indexDatum he]
  refine ⟨h, ?_, rfl, rfl⟩
  rw [openAt, Act.on_bind, hmake]
  dsimp only
  rw [Act.on_bind, show indexFile { directory := st.directory } = st.indexFile from rfl, hpresent]
  dsimp only
  rw [if_neg (by decide), Act.rescue, Act.on_bind, Act.on_bind, Act.on_attempt, Act.on_bind, hread]
  dsimp only
  rw [Act.on_result, hs.readIndex]
  rfl

/-! ## What is stored of a tweak -/

theorem count_ne_zero (t : Tweak) (m : Memory) (now : Moment) :
    (snapshotOf t m now).2 ≠ 0 ↔ m.HasCapture t := by
  have hcount : (snapshotOf t m now).2 =
      (m.registry.indexed t.id .apply t.operations.registry.length).length +
      (m.services.indexed t.id .apply t.operations.services.length).length +
      (m.files.indexed t.id .apply t.operations.files.length).length := rfl
  rw [hcount, Memory.HasCapture, ne_eq, Nat.add_eq_zero_iff, Nat.add_eq_zero_iff,
    Captures.length_indexed_eq_zero, Captures.length_indexed_eq_zero,
    Captures.length_indexed_eq_zero]
  simp only [not_and_or, not_forall, exists_prop, or_assoc, ne_eq]

theorem count_le (t : Tweak) (m : Memory) (now : Moment) :
    (snapshotOf t m now).2 ≤ t.operations.count := by
  have hregistry := m.registry.length_indexed_le t.id t.operations.registry.length
  have hservices := m.services.length_indexed_le t.id t.operations.services.length
  have hfiles := m.files.length_indexed_le t.id t.operations.files.length
  have hcount : (snapshotOf t m now).2 =
      (m.registry.indexed t.id .apply t.operations.registry.length).length +
      (m.services.indexed t.id .apply t.operations.services.length).length +
      (m.files.indexed t.id .apply t.operations.files.length).length := rfl
  rw [hcount, OperationSet.count]
  omega

/-- The entry of a saved snapshot can be held exactly by a file. -/
theorem entry_exact (ht : t.Storable) (m : Memory) (now : Moment) (file : String) :
    (Entry.toDatum
      { tweakId := .text t.id
        tweakName := t.name
        timestamp := .text now.text
        filePath := .text file
        operationCount := .int (snapshotOf t m now).2 }).Exact := by
  obtain ⟨name, hname⟩ := ht.name
  have hdigits : (Decimal.natChars (snapshotOf t m now).2).length ≤ Decimal.maxDigits :=
    (Nat.length_toDigits_le_iff (by decide) (by decide)).mpr
      (Nat.lt_of_le_of_lt (count_le t m now) ht.count)
  rw [hname]
  exact ⟨by simp [Assoc.keys], trivial, trivial, trivial, trivial, hdigits, trivial⟩

/-- The second store has another entry for one key, its index was written, and no file was
touched but that of one identifier. -/
structure Rewritten (st st' : Store) (d d' : Disk) (dir : List String) (key id : String) :
    Prop where
  directory : st'.directory = st.directory
  folders : Disk.SameFolders d d'
  sound : st'.Sound
  written : d'.at? (dir ++ [indexName]) = some (.file (Json.fileBytes st'.indexDatum))
  otherKeys : ∀ k, k ≠ key → Assoc.get? k st'.index = Assoc.get? k st.index
  otherFiles : ∀ name, name ≠ fileName id → name ≠ indexName →
    d'.at? (dir ++ [name]) = d.at? (dir ++ [name])

theorem append_name_inj {name name' : String} : dir ++ [name] = dir ++ [name'] ↔ name = name' :=
  ⟨fun h => (List.cons.inj (List.append_cancel_left h)).1, fun h => by rw [h]⟩

/-- Writing the index after the file of one identifier was touched. -/
theorem Rewritten.of_index (st' : Store) (d₁ : Disk) (key id : String) (hp : st.Placed d dir)
    (hd : Disk.SameFolders d d₁) (hdir : st'.directory = st.directory) (hs : st'.Sound)
    (hkeys : ∀ k, k ≠ key → Assoc.get? k st'.index = Assoc.get? k st.index)
    (hfiles : ∀ name, name ≠ fileName id → d₁.at? (dir ++ [name]) = d.at? (dir ++ [name])) :
    Rewritten st st' d (d₁.withFile (dir ++ [indexName]) (Json.fileBytes st'.indexDatum)) dir key id ∧
      ∀ name, name ≠ indexName → (d₁.withFile (dir ++ [indexName])
        (Json.fileBytes st'.indexDatum)).at? (dir ++ [name]) = d₁.at? (dir ++ [name]) := by
  have hfree : d₁.at? (dir ++ [indexName]) ≠ some .directory := fun h =>
    hp.indexFree ((hd.folder _).mp h)
  have hsame : ∀ name, name ≠ indexName → (d₁.withFile (dir ++ [indexName])
      (Json.fileBytes st'.indexDatum)).at? (dir ++ [name]) = d₁.at? (dir ++ [name]) :=
    fun name hname => by
      rw [Disk.at?_withFile hfree, if_neg fun h => hname (append_name_inj.mp h).symm]
  refine ⟨⟨hdir, hd.trans (Disk.sameFolders_withFile hfree _), hs, ?_, hkeys, fun name h₁ h₂ => ?_⟩,
    hsame⟩
  · rw [Disk.at?_withFile hfree, if_pos rfl]
  · rw [hsame name h₂, hfiles name h₁]

theorem Rewritten.reopens {key : String} {st' : Store} (h : Rewritten st st' d d' dir key id)
    (hp : st.Placed d dir) : st'.Reopens μ d' :=
  openAt_written (hp.of_sameFolders h.folders h.directory) h.sound h.written

/-- The index has an entry for a tweak, which names its file. -/
def Lists (st : Store) (t : Tweak) : Prop :=
  ∃ e, Assoc.get? t.key st.index = some e ∧ e.filePath = .text (st.fileFor t.id).text

theorem Lists.rewritten {st' : Store} {key : String} (h : st.Lists t)
    (hr : Rewritten st st' d d' dir key id) (hkey : t.key ≠ key) : st'.Lists t := by
  obtain ⟨e, he, hpath⟩ := h
  refine ⟨e, (hr.otherKeys _ hkey).trans he, ?_⟩
  rw [hpath, fileFor, fileFor, hr.directory]

/-- The file of a tweak has its captures. -/
def Has (d : Disk) (dir : List String) (t : Tweak) (m : Memory) : Prop :=
  ∃ now, d.at? (dir ++ [fileName t.id]) = some (.file (Json.fileBytes (snapshotOf t m now).1))

end Store

variable {μ : Type} {st : Store} {dir : List String} {t : Tweak} {s : Session μ}

open Session Store

/-- An action on the files changes nothing else of a session. -/
theorem onDisk_on {α : Type} {a : Act Disk α} {r : Except Failure α} {d : Disk}
    (h : a.on s.core.disk = (r, d)) : ∃ s', (onHost (Host.onDisk a)).on s = (r, s') ∧
      s'.core = { s.core with disk := d } := by
  have h' : a.on s.host.disk = (r, d) := h
  rw [onHost, Part.on_lift, Host.onDisk, Part.on_lift, hostPart, Host.diskPart, h']
  exact ⟨_, rfl, rfl⟩

/-- Writing the index after a change of one entry. -/
theorem saveIndex_on {st' : Store} (hp : st'.Placed s.core.disk dir) (hs : st'.Sound) :
    ∃ s' bytes, (onHost st'.saveIndex).on s = (.ok (), s') ∧
      bytes = Json.fileBytes st'.indexDatum ∧
      s'.core = { s.core with disk := s.core.disk.withFile (dir ++ [indexName]) bytes } := by
  obtain ⟨s', hs', hcore⟩ := onDisk_on (s := s)
    (Disk.writeJson_on hp.index hp.indexFree hs.indexDatum)
  exact ⟨s', _, hs', rfl, hcore⟩

/-- What saving does when there is a capture. -/
theorem save_eq (st : Store) (hcapture : s.core.memory.HasCapture t) :
    (save st t).on s = (do
      onHost (Host.onDisk (Disk.writeJson (st.fileFor t.id) (snapshotOf t s.memory s.host.clock).1))
      let entry : Entry :=
        { tweakId := .text t.id
          tweakName := t.name
          timestamp := .text s.host.clock.text
          filePath := .text (st.fileFor t.id).text
          operationCount := .int (snapshotOf t s.memory s.host.clock).2 }
      let store := { st with index := Assoc.put t.key entry st.index }
      putStore store
      onHost store.saveIndex
      say .info speaker
        ("Saved snapshot for " ++ t.id ++ " (" ++ toString (snapshotOf t s.memory s.host.clock).2 ++
          " operations) to " ++ (st.fileFor t.id).text)
      return some (st.fileFor t.id)).on s := by
  have hnow : (onHost Host.now : Work μ Moment).on s = (.ok s.host.clock, s) := rfl
  have hcount := (count_ne_zero t s.memory s.host.clock).mpr hcapture
  rw [save, Act.on_bind, hnow]
  dsimp only
  rw [Act.on_bind, Act.on_view]
  dsimp only
  rw [if_neg hcount]

/-- Without a capture saving does nothing. -/
theorem save_on_none (st : Store) (hnone : ¬s.core.memory.HasCapture t) :
    ∃ s', (save st t).on s = (.ok none, s') ∧ s'.core = s.core := by
  have hnow : (onHost Host.now : Work μ Moment).on s = (.ok s.host.clock, s) := rfl
  have hcount : (snapshotOf t s.memory s.host.clock).2 = 0 :=
    Classical.not_not.mp fun h => hnone ((count_ne_zero t s.memory s.host.clock).mp h)
  rw [save, Act.on_bind, hnow]
  dsimp only
  rw [Act.on_bind, Act.on_view]
  dsimp only
  rw [if_pos hcount]
  exact ⟨_, rfl, rfl⟩

/-- When the file of the tweak cannot have its place, saving fails and does nothing. -/
theorem save_on_refused {f : Failure} (hf : s.core.disk.locate (st.fileFor t.id) = .error f)
    (hm : s.core.memory.Tidy t.id) (hcapture : s.core.memory.HasCapture t) :
    ∃ s', (save st t).on s = (.error f, s') ∧ s'.core = s.core := by
  have hexact : (snapshotOf t s.memory s.host.clock).1.Exact := snapshotOf_exact hm s.host.clock
  have hwrite : (Disk.writeJson (st.fileFor t.id) (snapshotOf t s.memory s.host.clock).1).on
      s.core.disk = (.error f, s.core.disk) := by
    rw [Disk.writeJson, Json.foreign?_exact hexact]
    exact Disk.writeText_on_error hf _
  obtain ⟨s₁, hs₁, hcore₁⟩ := onDisk_on (s := s) hwrite
  rw [save_eq st hcapture, Act.on_bind, hs₁]
  exact ⟨s₁, rfl, hcore₁⟩

/-- **Saving** writes the file of the tweak and the index. -/
theorem save_on (hp : st.Placed s.core.disk dir) (hr : st.Room s.core.disk dir t.id)
    (hs : st.Sound) (ht : t.Storable) (hm : s.core.memory.Tidy t.id)
    (hcapture : s.core.memory.HasCapture t) :
    ∃ r s' st' d', (save st t).on s = (.ok r, s') ∧
      s'.core = { s.core with disk := d', store := some st' } ∧
      Rewritten st st' s.core.disk d' dir t.key t.id ∧ st'.Lists t ∧
      (fileName t.id ≠ indexName → Has d' dir t s.core.memory) := by
  have hexact : (snapshotOf t s.memory s.host.clock).1.Exact := snapshotOf_exact hm s.host.clock
  rw [save_eq st hcapture]
  -- the file of the tweak comes first, then the index
  obtain ⟨s₁, hs₁, hcore₁⟩ := onDisk_on (s := s) (Disk.writeJson_on hr.located hr.free hexact)
  rw [Act.on_bind, hs₁]
  dsimp only
  rw [Act.on_bind, putStore, Act.on_change]
  dsimp only
  generalize he : ({
    tweakId := .text t.id
    tweakName := t.name
    timestamp := .text s.host.clock.text
    filePath := .text (st.fileFor t.id).text
    operationCount := .int (snapshotOf t s.memory s.host.clock).2 } : Entry) = e
  have hentry : e.toDatum.Exact := by
    rw [← he]
    exact entry_exact ht s.memory s.host.clock _
  have hfolders := Disk.sameFolders_withFile hr.free
    (Json.fileBytes (snapshotOf t s.memory s.host.clock).1)
  have hsound : Sound { st with index := Assoc.put t.key e st.index } := hs.put hentry t.key
  have hplaced : Placed { st with index := Assoc.put t.key e st.index } s₁.core.disk dir := by
    rw [hcore₁]
    exact hp.of_sameFolders hfolders rfl
  obtain ⟨s₂, bytes, hs₂, hbytes, hcore₂⟩ := saveIndex_on
    (s := { s₁ with store := some { st with index := Assoc.put t.key e st.index } }) hplaced hsound
  rw [Act.on_bind, hs₂]
  have hbytes₁ : ∀ name, name ≠ fileName t.id → s₁.core.disk.at? (dir ++ [name]) =
      s.core.disk.at? (dir ++ [name]) := fun name hname => by
    rw [hcore₁]
    exact (Disk.at?_withFile hr.free _ _).trans
      (if_neg fun h => hname (append_name_inj.mp h).symm)
  obtain ⟨hrewritten, hsame⟩ := Rewritten.of_index
    { st with index := Assoc.put t.key e st.index } s₁.core.disk t.key t.id hp
    (by rw [hcore₁]; exact hfolders) rfl hsound
    (fun k hk => (Assoc.get?_put _ _ _ _).trans (if_neg (Ne.symm hk))) hbytes₁
  refine ⟨_, _, _, _, rfl, ?_, hrewritten,
    ⟨e, (Assoc.get?_put _ _ _ _).trans (if_pos rfl), by rw [← he]; rfl⟩, fun hname => ?_⟩
  · have hmachine : s₁.core.machine = s.core.machine := by rw [hcore₁]
    have hmemory : s₁.core.memory = s.core.memory := by rw [hcore₁]
    refine hcore₂.trans ?_
    rw [← hmachine, ← hmemory, hbytes]
    rfl
  · refine ⟨s.host.clock, (hsame _ hname).trans ?_⟩
    rw [hcore₁]
    exact (Disk.at?_withFile hr.free _ _).trans (if_pos rfl)

/-! ## Loading -/

theorem ofDatum_fileFor (hp : st.Placed s.core.disk dir) (id : String) :
    Path.ofDatum (.text (st.fileFor id).text) = .ok (st.fileFor id) :=
  congrArg Except.ok (Path.ofText_text (hp.normal.child (plain_fileName id)))

/-- Without an entry in the index there is nothing to load. -/
theorem load_on_unlisted (h : Assoc.get? t.key st.index = none) :
    ∃ s', (load st t).on s = (.ok false, s') ∧ s'.core = s.core := by
  rw [load, h]
  exact ⟨_, rfl, rfl⟩

/-- Asking whether the file of a tweak exists. -/
theorem present_on {id : String} (hr : st.Room s.core.disk dir id) :
    (onHost (Host.onDisk (Disk.present (st.fileFor id))) : Work μ Bool).on s =
      (.ok (s.core.disk.at? (dir ++ [fileName id])).isSome, s) := by
  have h : (Disk.present (st.fileFor id)).on s.host.disk = _ := Disk.present_on hr.located
  rw [onHost, Part.on_lift, hostPart]
  dsimp only
  rw [Host.onDisk, Part.on_lift, Host.diskPart]
  dsimp only
  rw [h]
  rfl

/-- An entry whose file is gone gives nothing either. -/
theorem load_on_missing (hp : st.Placed s.core.disk dir) (hr : st.Room s.core.disk dir t.id)
    (hlists : st.Lists t) (h : s.core.disk.at? (dir ++ [fileName t.id]) = none) :
    ∃ s', (load st t).on s = (.ok false, s') ∧ s'.core = s.core := by
  obtain ⟨e, he, hfile⟩ := hlists
  rw [load, he]
  dsimp only
  rw [hfile, ofDatum_fileFor hp, Act.on_bind, Act.on_result]
  dsimp only
  rw [Act.on_bind, present_on hr, h]
  exact ⟨_, rfl, rfl⟩

/-- What loading does when the file holds a value. -/
theorem load_eq (hp : st.Placed s.core.disk dir) (hr : st.Room s.core.disk dir t.id)
    (hlists : st.Lists t) {x : Datum} (hx : x.Exact)
    (hbytes : s.core.disk.at? (dir ++ [fileName t.id]) = some (.file (Json.fileBytes x))) :
    ∃ s₁, s₁.core = s.core ∧ (load st t).on s = (do
      memoryPart.lift (restoreAll t x)
      say .debug speaker ("Loaded snapshot for " ++ t.id)
      return true).on s₁ := by
  obtain ⟨e, he, hfile⟩ := hlists
  obtain ⟨s₁, hs₁, hcore₁⟩ := onDisk_on (s := s) (Disk.readJson_on hr.located hx hbytes)
  refine ⟨s₁, hcore₁, ?_⟩
  rw [load, he]
  dsimp only
  rw [hfile, ofDatum_fileFor hp, Act.on_bind, Act.on_result]
  dsimp only
  rw [Act.on_bind, present_on hr, hbytes]
  dsimp only
  rw [Option.isSome_some, Bool.not_true, if_neg Bool.false_ne_true, Act.on_bind, hs₁]

/-- **Loading** adds the captures of the file to those in memory. -/
theorem load_on (hp : st.Placed s.core.disk dir) (hr : st.Room s.core.disk dir t.id)
    (hlists : st.Lists t) (ht : t.Storable) {saved : Memory} (htidy : saved.Tidy t.id)
    (h : Has s.core.disk dir t saved) :
    ∃ s' m', (load st t).on s = (.ok true, s') ∧ s'.core = { s.core with memory := m' } ∧
      Memory.Joined t saved s.core.memory m' := by
  obtain ⟨now, hbytes⟩ := h
  obtain ⟨s₁, hcore₁, hload⟩ := load_eq hp hr hlists (snapshotOf_exact htidy now) hbytes
  obtain ⟨m', hm', hjoined⟩ := restoreAll_on (Nat.le_of_lt ht.count) htidy now s.memory
  have hmemory : s₁.memory = s.memory := congrArg Core.memory hcore₁
  rw [hload, Act.on_bind, Part.on_lift, show memoryPart.get s₁ = s.memory from hmemory, hm']
  have hset : (memoryPart.set m' s₁).core = { s.core with memory := m' } := by
    rw [← hcore₁]
    rfl
  exact ⟨_, m', rfl, hset, hjoined⟩

/-- A file without captures gives none. -/
theorem load_on_empty (hp : st.Placed s.core.disk dir) (hr : st.Room s.core.disk dir t.id)
    (hlists : st.Lists t) {fields : List (String × Datum)} (hx : (Datum.object fields).Exact)
    (hbytes : s.core.disk.at? (dir ++ [fileName t.id]) =
      some (.file (Json.fileBytes (.object fields))))
    (hnone : ∀ name ∈ ["registry", "services", "files"], Assoc.get? name fields = none) :
    ∃ s', (load st t).on s = (.ok true, s') ∧ s'.core = s.core := by
  have hpart : ∀ name ∈ ["registry", "services", "files"],
      part (.object fields) name = .ok [] := fun name hname => by
    have hfield : fieldOf (.object fields) name (.object []) = .ok (.object []) := by
      rw [fieldOf, hnone name hname]
      rfl
    rw [part, hfield]
    rfl
  obtain ⟨s₁, hcore₁, hload⟩ := load_eq hp hr hlists hx hbytes
  have hrestore : (restoreAll t (.object fields)).on (memoryPart.get s₁) =
      (.ok (), memoryPart.get s₁) := by
    rw [restoreAll, hpart _ (by simp), hpart _ (by simp), hpart _ (by simp)]
    rfl
  rw [hload, Act.on_bind, Part.on_lift, hrestore]
  exact ⟨_, rfl, hcore₁⟩

/-! ## Deleting -/

/-- Without an entry in the index there is nothing to delete. -/
theorem delete_on_unlisted (h : Assoc.get? t.key st.index = none) :
    (delete st t.id : Work μ Bool).on s = (.ok false, s) := by
  have h' : Assoc.get? (Text.fold t.id) st.index = none := h
  rw [delete]
  dsimp only
  rw [h']
  rfl

/-- The end of deleting: when the file is gone, the index is written. -/
theorem deleteIndex_on {s₁ : Session μ} {st' : Store} {d₁ : Disk} (hp : st.Placed s.core.disk dir)
    (hdir : st'.directory = st.directory) (hs' : st'.Sound)
    (hkeys : ∀ k, k ≠ t.key → Assoc.get? k st'.index = Assoc.get? k st.index)
    (hcore : s₁.core = { s.core with disk := d₁, store := some st' })
    (hd : Disk.SameFolders s.core.disk d₁) (hgone : d₁.at? (dir ++ [fileName t.id]) = none)
    (hother : ∀ name, name ≠ fileName t.id →
      d₁.at? (dir ++ [name]) = s.core.disk.at? (dir ++ [name])) :
    ∃ s' d', (do
        onHost st'.saveIndex
        say .info speaker ("Deleted snapshot for " ++ t.id)
        return true).on s₁ = (.ok true, s') ∧
      s'.core = { s.core with disk := d', store := some st' } ∧
      Rewritten st st' s.core.disk d' dir t.key t.id ∧
      (fileName t.id ≠ indexName → d'.at? (dir ++ [fileName t.id]) = none) := by
  have hdisk : s₁.core.disk = d₁ := by rw [hcore]
  have hplaced : st'.Placed s₁.core.disk dir := by
    rw [hdisk]
    exact hp.of_sameFolders hd hdir
  obtain ⟨s₂, bytes, hs₂, hbytes, hcore₂⟩ := saveIndex_on hplaced hs'
  obtain ⟨hrewritten, hsame⟩ := Rewritten.of_index st' d₁ t.key t.id hp hd hdir hs' hkeys hother
  rw [Act.on_bind, hs₂]
  refine ⟨_, _, rfl, hcore₂.trans ?_, hrewritten, fun hname => (hsame _ hname).trans hgone⟩
  rw [hcore, hbytes]

/-- **Deleting** takes the file of the tweak and its entry away. -/
theorem delete_on (hp : st.Placed s.core.disk dir) (hr : st.Room s.core.disk dir t.id)
    (hs : st.Sound) (hlists : st.Lists t) :
    ∃ s' st' d', (delete st t.id).on s = (.ok true, s') ∧
      s'.core = { s.core with disk := d', store := some st' } ∧
      Rewritten st st' s.core.disk d' dir t.key t.id ∧ Assoc.get? t.key st'.index = none ∧
      (fileName t.id ≠ indexName → d'.at? (dir ++ [fileName t.id]) = none) := by
  obtain ⟨e, he, hfile⟩ := hlists
  have he' : Assoc.get? (Text.fold t.id) st.index = some e := he
  obtain ⟨st', hst'⟩ : ∃ st' : Store,
      st' = { st with index := Assoc.erase (Text.fold t.id) st.index } := ⟨_, rfl⟩
  have hget : ∀ k, Assoc.get? k st'.index = if t.key = k then none else Assoc.get? k st.index :=
    fun k => by rw [hst']; exact Assoc.get?_erase _ _ _
  have hdir : st'.directory = st.directory := by rw [hst']
  have hs' : st'.Sound := hst' ▸ hs.erase _
  have hkeys : ∀ k, k ≠ t.key → Assoc.get? k st'.index = Assoc.get? k st.index := fun k hk =>
    (hget k).trans (if_neg (Ne.symm hk))
  have hnone : Assoc.get? t.key st'.index = none := (hget _).trans (if_pos rfl)
  rw [delete]
  dsimp only
  rw [he']
  dsimp only
  rw [Act.on_bind, putStore, Act.on_change]
  dsimp only
  rw [hfile, ofDatum_fileFor hp, Act.on_bind, Act.on_result, ← hst']
  dsimp only
  have hpresent : (onHost (Host.onDisk (Disk.present (st.fileFor t.id)))).on
      { s with store := some st' } = (.ok (s.core.disk.at? (dir ++ [fileName t.id])).isSome,
        { s with store := some st' }) :=
    present_on (s := { s with store := some st' }) hr
  rw [Act.on_bind, hpresent]
  dsimp only
  cases hat : s.core.disk.at? (dir ++ [fileName t.id]) with
  | none =>
    have hcore : ({ s with store := some st' } : Session μ).core =
      { s.core with disk := s.core.disk, store := some st' } := rfl
    obtain ⟨s', d', hrun, hcore', hrewritten, hgone⟩ :=
      deleteIndex_on hp hdir hs' hkeys hcore (.refl _) hat fun _ _ => rfl
    rw [Option.isSome_none, if_neg Bool.false_ne_true]
    exact ⟨s', st', d', hrun, hcore', hrewritten, hnone, hgone⟩
  | some entry =>
    cases entry with
    | directory => exact absurd hat hr.free
    | file bytes =>
      obtain ⟨s₁, hs₁, hcore₁⟩ := onDisk_on (s := { s with store := some st' })
        (Disk.unlink_on hr.located hat)
      obtain ⟨s', d', hrun, hcore', hrewritten, hgone⟩ :=
        deleteIndex_on (s := s) hp hdir hs' hkeys hcore₁ (Disk.sameFolders_without hr.free)
          ((Disk.at?_without hr.free _).trans (if_pos rfl))
          fun name hname => (Disk.at?_without hr.free _).trans
            (if_neg fun h => hname (append_name_inj.mp h).symm)
      rw [Option.isSome_some, if_pos rfl, Act.on_bind, hs₁]
      exact ⟨s', st', d', hrun, hcore', hrewritten, hnone, hgone⟩

end Snapshot
end TweakEngine
