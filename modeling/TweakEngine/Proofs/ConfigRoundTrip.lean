/-
# Reading a configuration again

A configuration that was read is written with its directories as they were resolved, so
reading it again resolves them once more (`Config.ofDatum_toDatum`).  Reading again never fails
and keeps the configuration directory and every setting; it keeps the other directories exactly
if they are absolute or the configuration directory is the current one, and otherwise every
further reading moves them deeper (`Config.rereads`).  They are absolute whenever the
configuration directory is, which is so unless a file names a relative one.

The same holds for a configuration that is saved to a file and loaded from there any number of
times, when its settings are values that a file holds exactly.
-/

import TweakEngine.Config
import TweakEngine.Proofs.Files
import Mathlib.Logic.Function.Iterate

namespace TweakEngine

/-! ## Paths seen from a directory twice -/

namespace Path

variable {dir p : Path} {n : Nat}

theorem Normal.under (hd : dir.Normal) (hp : p.Normal) : (dir.under p).Normal := by
  unfold Path.under
  split
  · exact hp
  · intro part hpart
    exact (List.mem_append.mp hpart).elim (hd part) (hp part)

theorem under_of_isAbsolute (h : p.isAbsolute = true) : dir.under p = p := if_pos h

theorem isAbsolute_under : (dir.under p).isAbsolute = (dir.isAbsolute || p.isAbsolute) := by
  unfold under
  split
  · next h => rw [h, Bool.or_true]
  · next h =>
    rw [Bool.not_eq_true] at h
    rw [h, Bool.or_false]
    rfl

theorem iterate_under_of_isAbsolute (h : p.isAbsolute = true) (n : Nat) :
    dir.under^[n] p = p := Function.iterate_fixed (under_of_isAbsolute h) n

/-- A relative path seen from a relative directory again and again goes deeper. -/
theorem iterate_under (hd : dir.isAbsolute = false) (hp : p.isAbsolute = false) (n : Nat) :
    (dir.under^[n] p).isAbsolute = false ∧
      (dir.under^[n] p).parts.length = n * dir.parts.length + p.parts.length := by
  induction n with
  | zero => exact ⟨hp, by simp⟩
  | succ n ih =>
    rw [Function.iterate_succ_apply']
    refine ⟨by rw [isAbsolute_under, hd, ih.1]; rfl, ?_⟩
    rw [under, if_neg (by rw [ih.1]; exact Bool.false_ne_true), List.length_append, ih.2,
      Nat.succ_mul]
    omega

/-- The current directory. -/
def here : Path := ⟨.relative, []⟩

theorem here_under (h : p.isAbsolute = false) : here.under p = p := by
  obtain ⟨root, parts⟩ := p
  obtain rfl : root = .relative := bne_eq_false_iff_eq.mp h
  rfl

theorem iterate_here_under (p : Path) (n : Nat) : here.under^[n] p = p := by
  cases h : p.isAbsolute with
  | true => exact iterate_under_of_isAbsolute h n
  | false => exact Function.iterate_fixed (here_under h) n

/-- A relative directory other than the current one moves a relative path at every step. -/
theorem iterate_under_injective (hd : dir.isAbsolute = false) (hhere : dir ≠ here)
    (hp : p.isAbsolute = false) {m n : Nat} (h : dir.under^[m] p = dir.under^[n] p) : m = n := by
  have hparts : dir.parts.length ≠ 0 := by
    intro hnil
    obtain ⟨root, parts⟩ := dir
    rw [isAbsolute, bne_eq_false_iff_eq] at hd
    exact hhere (by rw [here, ← hd, ← List.length_eq_zero_iff.mp hnil])
  have hlen : (dir.under^[m] p).parts.length = (dir.under^[n] p).parts.length := by rw [h]
  rw [(iterate_under hd hp m).2, (iterate_under hd hp n).2] at hlen
  exact Nat.eq_of_mul_eq_mul_right (Nat.pos_of_ne_zero hparts) (Nat.add_right_cancel hlen)

end Path

namespace Config

variable {home : String} {d : Datum} {c : Config} {fields : List (String × Datum)}

/-! ## Reading what was written -/

/-- All directories are in normal form. -/
structure Normal (c : Config) : Prop where
  directory : c.directory.Normal
  tweaks : c.tweaks.Normal
  snapshots : c.snapshots.Normal
  logs : c.logs.Normal

/-- The configuration with its directories seen from the configuration directory once more. -/
def again (c : Config) : Config :=
  { c with
    tweaks := c.directory.under c.tweaks
    snapshots := c.directory.under c.snapshots
    logs := c.directory.under c.logs }

theorem Normal.again (h : c.Normal) : c.again.Normal :=
  ⟨h.directory, h.directory.under h.tweaks, h.directory.under h.snapshots,
    h.directory.under h.logs⟩

/-- The path that a file names, or another one. -/
def namedPath (fields : List (String × Datum)) (name : String) (default : Path) :
    Except Failure Path :=
  match Assoc.get? name fields with
  | some d => Path.ofDatum d
  | none => .ok default

theorem readPath_ok {name default : String} {dir p : Path} :
    readPath fields name default dir = .ok p ↔
      ∃ named, namedPath fields name (Path.ofText default) = .ok named ∧ dir.under named = p := by
  unfold readPath namedPath
  cases Assoc.get? name fields with
  | none => simp [ok_bind, pure, Except.pure]
  | some d =>
    dsimp only
    cases Path.ofDatum d with
    | error f => simp [bind, Except.bind]
    | ok named => simp [ok_bind, pure, Except.pure]

theorem namedPath_normal {name : String} {default p : Path} (hdefault : default.Normal)
    (h : namedPath fields name default = .ok p) : p.Normal := by
  unfold namedPath at h
  split at h
  · next d _ =>
    cases d with
    | text s => cases h; exact Path.ofText_normal s
    | _ => cases h
  · cases h
    exact hdefault

/-- What a file says of the directories, and the directories that it leads to. -/
structure Reads (home : String) (fields : List (String × Datum)) (c : Config) : Prop where
  directory : namedPath fields "config_dir" (defaultDirectory home) = .ok c.directory
  tweaks : readPath fields "tweaks_dir" "tweaks" c.directory = .ok c.tweaks
  snapshots : readPath fields "snapshots_dir" "snapshots" c.directory = .ok c.snapshots
  logs : readPath fields "logs_dir" "logs" c.directory = .ok c.logs

theorem reads_of_ofDatum (h : ofDatum home d = .ok c) :
    ∃ fields, d = .object fields ∧ Reads home fields c := by
  cases d with
  | object fields =>
    have hnamed : ofDatum home (.object fields) =
        namedPath fields "config_dir" (defaultDirectory home) >>= fun directory => do
          return {
            directory
            tweaks := ← readPath fields "tweaks_dir" "tweaks" directory
            snapshots := ← readPath fields "snapshots_dir" "snapshots" directory
            logs := ← readPath fields "logs_dir" "logs" directory
            detection := ← readSection fields "detection" {} readDetection
            execution := ← readSection fields "execution" {} readExecution
            display := ← readSection fields "ui" {} readDisplay
            disabled := setting fields "disabled_tweaks" (.list []) } := by
      unfold ofDatum namedPath
      dsimp only
      cases Assoc.get? "config_dir" fields <;> rfl
    rw [hnamed] at h
    obtain ⟨directory, hdirectory, h⟩ := ok_of_bind h
    obtain ⟨tweaks, htweaks, h⟩ := ok_of_bind h
    obtain ⟨snapshots, hsnapshots, h⟩ := ok_of_bind h
    obtain ⟨logs, hlogs, h⟩ := ok_of_bind h
    obtain ⟨detection, -, h⟩ := ok_of_bind h
    obtain ⟨execution, -, h⟩ := ok_of_bind h
    obtain ⟨display, -, h⟩ := ok_of_bind h
    cases h
    exact ⟨fields, rfl, hdirectory, htweaks, hsnapshots, hlogs⟩
  | _ => cases h

theorem defaultDirectory_normal (home : String) : (defaultDirectory home).Normal :=
  (Path.ofText_normal home).child ⟨by decide, by decide, by decide, by decide⟩

theorem Reads.normal (h : Reads home fields c) : c.Normal := by
  have hdir := namedPath_normal (defaultDirectory_normal home) h.directory
  have hbelow {name default : String} {p : Path}
      (hp : readPath fields name default c.directory = .ok p) : p.Normal := by
    obtain ⟨named, hnamed, rfl⟩ := readPath_ok.mp hp
    exact hdir.under (namedPath_normal (Path.ofText_normal _) hnamed)
  exact ⟨hdir, hbelow h.tweaks, hbelow h.snapshots, hbelow h.logs⟩

/-- **Reading what was written** sees the directories from the configuration directory once
more, and gives everything else back. -/
theorem ofDatum_toDatum (home : String) (h : c.Normal) : ofDatum home c.toDatum = .ok c.again := by
  have hback : ofDatum home c.toDatum = .ok
      { c with
        directory := Path.ofText c.directory.text
        tweaks := (Path.ofText c.directory.text).under (Path.ofText c.tweaks.text)
        snapshots := (Path.ofText c.directory.text).under (Path.ofText c.snapshots.text)
        logs := (Path.ofText c.directory.text).under (Path.ofText c.logs.text) } := rfl
  rw [hback, Path.ofText_text h.directory, Path.ofText_text h.tweaks, Path.ofText_text h.snapshots,
    Path.ofText_text h.logs]
  rfl

/-! ## Reading again and again -/

/-- A configuration after it was written and read a number of times. -/
def rereads (home : String) : Nat → Config → Except Failure Config
  | 0, c => .ok c
  | n + 1, c => do rereads home n (← ofDatum home c.toDatum)

theorem iterate_again (n : Nat) : ∀ c : Config, again^[n] c =
    { c with
      tweaks := c.directory.under^[n] c.tweaks
      snapshots := c.directory.under^[n] c.snapshots
      logs := c.directory.under^[n] c.logs } := by
  induction n with
  | zero => intro c; rfl
  | succ n ih => intro c; rw [Function.iterate_succ_apply, ih]; rfl

/-- Reading again never fails. -/
theorem rereads_ok (home : String) : ∀ (n : Nat) {c : Config}, c.Normal →
    rereads home n c = .ok (again^[n] c)
  | 0, _, _ => rfl
  | n + 1, c, h => by
    rw [rereads, ofDatum_toDatum home h, ok_bind, rereads_ok home n h.again,
      Function.iterate_succ_apply]

/-- Reading again finds the directories where they are: the configuration directory is the
current one, or all others are absolute. -/
def Anchored (c : Config) : Prop :=
  c.directory = Path.here ∨
    c.tweaks.isAbsolute = true ∧ c.snapshots.isAbsolute = true ∧ c.logs.isAbsolute = true

theorem Anchored.iterate_again (h : c.Anchored) (n : Nat) : again^[n] c = c := by
  rw [Config.iterate_again]
  rcases h with h | ⟨ht, hs, hl⟩
  · rw [h, Path.iterate_here_under, Path.iterate_here_under, Path.iterate_here_under, ← h]
  · rw [Path.iterate_under_of_isAbsolute ht, Path.iterate_under_of_isAbsolute hs,
      Path.iterate_under_of_isAbsolute hl]

/-- Every directory of a configuration with an absolute configuration directory is absolute. -/
theorem Reads.absolute (h : Reads home fields c) (hdir : c.directory.isAbsolute = true) :
    c.Anchored := by
  have hbelow {name default : String} {p : Path}
      (hp : readPath fields name default c.directory = .ok p) : p.isAbsolute = true := by
    obtain ⟨named, -, rfl⟩ := readPath_ok.mp hp
    rw [Path.isAbsolute_under, hdir, Bool.true_or]
  exact .inr ⟨hbelow h.tweaks, hbelow h.snapshots, hbelow h.logs⟩

/-- A directory that is not where it was found moves with every reading. -/
theorem Reads.iterate_again_injective (h : Reads home fields c) (hc : ¬c.Anchored) {m n : Nat}
    (hsame : again^[m] c = again^[n] c) : m = n := by
  have hdir : c.directory.isAbsolute = false :=
    Bool.not_eq_true _ ▸ fun hdir => hc (h.absolute hdir)
  have hhere : c.directory ≠ Path.here := fun hhere => hc (.inl hhere)
  rw [iterate_again, iterate_again] at hsame
  have hfields := Config.mk.inj hsame
  by_cases ht : c.tweaks.isAbsolute = true
  · by_cases hs : c.snapshots.isAbsolute = true
    · have hl : c.logs.isAbsolute = false :=
        Bool.not_eq_true _ ▸ fun hl => hc (.inr ⟨ht, hs, hl⟩)
      exact Path.iterate_under_injective hdir hhere hl hfields.2.2.2.1
    · exact Path.iterate_under_injective hdir hhere (Bool.not_eq_true _ ▸ hs) hfields.2.2.1
  · exact Path.iterate_under_injective hdir hhere (Bool.not_eq_true _ ▸ ht) hfields.2.1

/-! ## Through a file -/

/-- A configuration after it was saved to a file and loaded from it a number of times. -/
def throughFile (file : Path) : Nat → Config → Act Disk Config
  | 0, c => return c
  | n + 1, c => do
    c.save (some file)
    throughFile file n (← Config.load (some file))

/-- A file may be written at a location: its directory exists, and no directory stands there. -/
structure MayWrite (file : Path) (loc : List String) (d : Disk) : Prop where
  folder : ∃ dir, d.locate file.parent = .ok dir ∧ d.at? dir = some .directory
  located : d.locate file = .ok loc
  free : d.at? loc ≠ some .directory

variable {disk : Disk} {file : Path} {loc : List String} {bytes : List UInt8}

theorem MayWrite.withFile (h : MayWrite file loc disk) (bytes : List UInt8) :
    MayWrite file loc (disk.withFile loc bytes) := by
  have hsame := Disk.sameFolders_withFile h.free bytes
  obtain ⟨dir, hdir, hfolder⟩ := h.folder
  refine ⟨⟨dir, hsame.locate hdir, (hsame.folder dir).mpr hfolder⟩, hsame.locate h.located, ?_⟩
  rw [Disk.at?_withFile h.free, if_pos rfl]
  nofun

/-- The disk with a configuration in a file. -/
def savedOn (c : Config) (loc : List String) (disk : Disk) : Disk :=
  disk.withFile loc (Encoding.utf8 (Json.write Json.fileLayout c.toDatum))

theorem save_on (h : MayWrite file loc disk) (hc : c.toDatum.Exact) :
    (c.save (some file)).on disk = (.ok (), c.savedOn loc disk) := by
  obtain ⟨dir, hdir, hfolder⟩ := h.folder
  unfold save
  rw [Option.getD_some, Act.on_bind_of_ok (Disk.makeDirs_on hdir hfolder)]
  exact Disk.writeJson_on h.located h.free hc

theorem load_on (h : MayWrite file loc disk) (hc : c.toDatum.Exact) (hn : c.Normal) :
    (Config.load (some file)).on (c.savedOn loc disk) = (.ok c.again, c.savedOn loc disk) := by
  have hlocated : (c.savedOn loc disk).locate file = .ok loc := (h.withFile _).located
  have hfile : (c.savedOn loc disk).at? loc = some (.file (Encoding.utf8
      (Json.write Json.fileLayout c.toDatum))) := by
    rw [savedOn, Disk.at?_withFile h.free, if_pos rfl]
  have hpresent : (Disk.present file).on (c.savedOn loc disk) =
      (.ok true, c.savedOn loc disk) := by
    rw [Disk.present_on hlocated, hfile]
    rfl
  unfold Config.load
  rw [Act.on_bind_of_ok (Act.on_view Disk.home _), Option.getD_some, Act.on_bind_of_ok hpresent,
    if_pos rfl, Act.on_bind_of_ok (Disk.readJson_on hlocated hc hfile), Act.on_result,
    ofDatum_toDatum _ hn]

/-- Only texts stand for the directories, so what can be held exactly stays so. -/
theorem again_exact (h : c.toDatum.Exact) : c.again.toDatum.Exact := h

/-- Saving and loading never fails, and does what reading again does. -/
theorem throughFile_on (n : Nat) : ∀ {c : Config} {disk : Disk}, MayWrite file loc disk →
    c.toDatum.Exact → c.Normal →
      ∃ disk', (throughFile file n c).on disk = (.ok (again^[n] c), disk') := by
  induction n with
  | zero => intro c disk _ _ _; exact ⟨disk, rfl⟩
  | succ n ih =>
    intro c disk h hc hn
    obtain ⟨disk', hrest⟩ := ih (h.withFile _) (again_exact hc) hn.again
    refine ⟨disk', ?_⟩
    rw [throughFile, Act.on_bind_of_ok (save_on h hc), Act.on_bind_of_ok (load_on h hc hn),
      Function.iterate_succ_apply]
    exact hrest

/-! ## Any number of times -/

/-- Only a relative configuration directory that a file names leaves directories relative. -/
theorem Reads.anchored (h : Reads home fields c)
    (hhome : (Path.ofText home).isAbsolute = true)
    (hnamed : ∀ s, Assoc.get? "config_dir" fields = some (.text s) →
      (Path.ofText s).isAbsolute = true) : c.Anchored := by
  refine h.absolute ?_
  have hdirectory := h.directory
  unfold namedPath at hdirectory
  split at hdirectory
  · next d hd =>
    cases d with
    | text s => exact Except.ok.inj hdirectory ▸ hnamed s hd
    | _ => cases hdirectory
  · rw [← Except.ok.inj hdirectory, defaultDirectory, Path.child, Path.isAbsolute_under, hhome,
      Bool.true_or]

/-- **Reading a configuration again.**  A configuration that was read can be written and read
again any number of times, in memory and through a file, and keeps its settings and its
configuration directory.  Its other directories stay where they are if they are absolute or the
configuration directory is the current one, as they do whenever no relative configuration
directory was named; otherwise no two readings agree. -/
theorem rereads_iff (hhome : (Path.ofText home).isAbsolute = true) (h : ofDatum home d = .ok c) :
    (∀ n, rereads home n c = .ok (again^[n] c)) ∧
    (c.Anchored → ∀ n, again^[n] c = c) ∧
    (¬c.Anchored → ∀ m n, again^[m] c = again^[n] c → m = n) ∧
    ((∀ fields s, d = .object fields → Assoc.get? "config_dir" fields = some (.text s) →
      (Path.ofText s).isAbsolute = true) → c.Anchored) ∧
    ∀ {file loc disk}, MayWrite file loc disk → c.toDatum.Exact → ∀ n,
      ∃ disk', (throughFile file n c).on disk = (.ok (again^[n] c), disk') := by
  obtain ⟨fields, rfl, hreads⟩ := reads_of_ofDatum h
  exact ⟨fun n => rereads_ok home n hreads.normal, Anchored.iterate_again,
    fun hc _ _ => hreads.iterate_again_injective hc,
    fun hnamed => hreads.anchored hhome fun s => hnamed fields s rfl,
    fun hfile hexact n => throughFile_on n hfile hexact hreads.normal⟩

/-! ## A sample -/

/-- A file that names an absolute configuration directory and a relative one below it. -/
def sampleFields : List (String × Datum) :=
  [("config_dir", .text "/srv/tweakd/"), ("tweaks_dir", .text "./mine"),
   ("ui", .object [("use_colors", .bool false)])]

/-- What such a file says. -/
def sampleConfig : Config :=
  { below ⟨.slash, ["srv", "tweakd"]⟩ with
    tweaks := ⟨.slash, ["srv", "tweakd", "mine"]⟩
    display := { useColors := .bool false } }

/-- A disk with a directory for the file. -/
def sampleDisk : Disk := { entries := [(["srv"], .directory)] }

/-- The sample is read back from its file three times as it was. -/
theorem sample_reread : (Path.ofText "/home/user").isAbsolute = true ∧
    ofDatum "/home/user" (.object sampleFields) = .ok sampleConfig ∧
    rereads "/home/user" 3 sampleConfig = .ok sampleConfig ∧
    ∃ disk', (throughFile ⟨.slash, ["srv", "config.json"]⟩ 3 sampleConfig).on sampleDisk =
      (.ok sampleConfig, disk') := by
  have hhome : (Path.ofText "/home/user").isAbsolute = true := by decide
  have hread : ofDatum "/home/user" (.object sampleFields) = .ok sampleConfig := rfl
  have hwrite : MayWrite ⟨.slash, ["srv", "config.json"]⟩ ["srv", "config.json"] sampleDisk :=
    ⟨⟨["srv"], by decide +kernel, by decide⟩, by decide +kernel, by decide⟩
  have hshort : (Decimal.natChars 300).length ≤ Decimal.maxDigits ∧
      (Decimal.natChars 30).length ≤ Decimal.maxDigits := by decide +kernel
  have hexact : sampleConfig.toDatum.Exact :=
    ⟨by decide, trivial, trivial, trivial, trivial,
      ⟨by decide, hshort.1, trivial, hshort.2, trivial⟩,
      ⟨by decide, trivial, trivial, trivial, trivial, trivial, trivial, trivial⟩,
      ⟨by decide, trivial, trivial, trivial⟩, trivial, trivial⟩
  obtain ⟨hagain, hstays, -, hanchored, hfile⟩ := rereads_iff hhome hread
  have hsame := hstays (hanchored fun fields s hfields hs => by
    cases hfields
    cases hs
    decide) 3
  obtain ⟨disk', hdisk⟩ := hfile hwrite hexact 3
  exact ⟨hhome, hread, (hagain 3).trans (congrArg _ hsame), disk',
    hdisk.trans (by rw [hsame])⟩

/-- A relative configuration directory: the other directories lie below it, and when they are
read again, below it once more. -/
theorem sample_moved_deeper : ∃ c c',
    ofDatum "/home/user" (.object [("config_dir", .text "cfg")]) = .ok c ∧
    ofDatum "/home/user" c.toDatum = .ok c' ∧ c.tweaks.text = "cfg/tweaks" ∧
    c'.tweaks.text = "cfg/cfg/tweaks" :=
  ⟨_, _, rfl, rfl, by decide +kernel, by decide +kernel⟩

end Config
end TweakEngine
