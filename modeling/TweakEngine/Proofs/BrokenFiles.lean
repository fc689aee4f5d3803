/-
# Folders with broken files

A folder of definition files is read file by file.  What comes of one file depends on the disk
alone (`Catalog.found`), and a fault of a file is put down and the next file is read.
`Catalog.tweaks_of_folder` says what comes of the folder: its tweaks are returned exactly when
every file that cannot be read has such a fault, and then they are the first ones of their
identifiers among the tweaks of the files that can be read, and the other files are listed with
their reasons.  A file has no other failure if its text can be decoded, its integers are not too
long, and the fields of its definitions that are converted can be converted.

Without that a file can keep all others from being read (`sample_unread`).
-/

import TweakEngine.Proofs.DefinitionFaults
import TweakEngine.Proofs.Files
import TweakEngine.Proofs.Shelves
import TweakEngine.Proofs.Tables

namespace TweakEngine

variable {μ α β : Type}

/-! ## Actions that only look at the disk -/

/-- The action gives what the disk says, and leaves the disk as it is. -/
def Host.Tells (a : Call μ α) (x : Disk → Except Failure α) : Prop :=
  ∀ h, (a.on h).1 = x h.disk ∧ (a.on h).2.disk = h.disk

namespace Host.Tells

variable {a : Call μ α} {x : Disk → Except Failure α}

theorem pure (v : α) : Tells (Pure.pure v : Call μ α) fun _ => .ok v := fun _ => ⟨rfl, rfl⟩

theorem result (r : Except Failure α) : Tells (Act.result r : Call μ α) fun _ => r :=
  fun _ => ⟨rfl, rfl⟩

theorem bind {k : α → Call μ β} {y : α → Disk → Except Failure β} (ha : Tells a x)
    (hk : ∀ v, Tells (k v) (y v)) : Tells (a >>= k) fun d => x d >>= fun v => y v d := by
  intro h
  have h₁ := ha h
  rw [Act.on_bind]
  revert h₁
  rcases a.on h with ⟨f | v, h'⟩ <;> rintro ⟨hx, hd⟩ <;> dsimp only at hx hd ⊢
  · exact ⟨by rw [← hx]; rfl, hd⟩
  · obtain ⟨hv, hd'⟩ := hk v h'
    exact ⟨by rw [← hx, hv, hd]; rfl, hd'.trans hd⟩

/-- What is said on the way has no part in the answer. -/
theorem after_say {k : Unit → Call μ β} {y : Disk → Except Failure β} (level : Level)
    (speaker text : String) (hk : Tells (k ()) y) :
    Tells (Host.say level speaker text >>= k) y := fun _ => hk _

theorem say_all {speaker : String} {level : Level} : ∀ texts : List String,
    Tells (forIn texts PUnit.unit fun text _ => do
      Host.say level speaker text
      Pure.pure (ForInStep.yield PUnit.unit) : Call μ PUnit) fun _ => .ok PUnit.unit
  | [] => pure _
  | text :: texts => by
    rw [List.forIn_cons, bind_assoc]
    refine after_say _ _ _ ?_
    rw [pure_bind]
    exact say_all texts

/-- Reading from the disk leaves it as it is. -/
theorem onDisk {a : Act Disk α} (ha : ∀ d, (a.on d).2 = d) :
    Tells (Host.onDisk a : Call μ α) fun d => (a.on d).1 := fun h => ⟨rfl, ha h.disk⟩

end Host.Tells

namespace Disk

theorem readBytes_reads (p : Path) (d : Disk) : ((readBytes p).on d).2 = d := by
  unfold readBytes locating
  rw [Act.on_bind, Act.on_of]
  rcases d.locate p with f | loc
  · rfl
  · dsimp only
    rw [Act.on_bind, Act.on_view]
    dsimp only
    split <;> rfl

theorem readJson_reads (p : Path) (d : Disk) : ((readJson p).on d).2 = d := by
  have hbytes := readBytes_reads p d
  unfold readJson readText
  rw [Act.on_bind, Act.on_bind]
  revert hbytes
  rcases (readBytes p).on d with ⟨f | bytes, d'⟩ <;> rintro rfl
  · rfl
  · dsimp only
    rw [Act.on_result]
    rcases textOf bytes with f | s <;> rfl

end Disk

/-! ## What a file holds -/

namespace Catalog

/-- The definitions in a JSON value: the items of a list, or the value alone. -/
def definitions : Datum → List Datum
  | .list entries => entries
  | d => [d]

/-- The tweaks that a JSON value defines; definitions without an identifier are skipped. -/
def defined (source : String) (d : Datum) : Except Failure (List Tweak) :=
  ((definitions d).filter fun d => !isNameless d).mapM fun d => Tweak.ofDatum d source

/-- The tweaks of a file. -/
def found (disk : Disk) (p : Path) : Except Failure (List Tweak) :=
  ((Disk.readJson p).on disk).1 >>= defined p.name

open Host (Tells)

theorem readTweaks_tells (source : String) : ∀ ds : List Datum,
    Tells (readTweaks source ds : Call μ (List Tweak)) fun _ =>
      (ds.filter fun d => !isNameless d).mapM fun d => Tweak.ofDatum d source
  | [] => .pure _
  | d :: ds => by
    unfold readTweaks
    cases hd : isNameless d with
    | true =>
      rw [List.filter_cons_of_neg (by simp [hd])]
      exact .after_say _ _ _ (readTweaks_tells source ds)
    | false =>
      rw [List.filter_cons_of_pos (by simp [hd]), List.mapM_cons]
      have htweak : Tells (readTweak source d : Call μ Tweak) fun _ => Tweak.ofDatum d source :=
        .bind (.say_all _) fun _ => .result _
      exact .bind htweak fun t => .bind (readTweaks_tells source ds) fun ts => .pure _

/-- Reading a file gives the tweaks that are found in it. -/
theorem readFrom_tells (p : Path) :
    Tells (readFrom p : Call μ (List Tweak)) fun d => found d p := by
  refine .bind (.onDisk (Disk.readJson_reads p)) fun d => ?_
  cases d <;> exact readTweaks_tells _ _

/-- The tweaks that are known after some more, of which the new ones count. -/
def withNew : List Tweak → List Tweak → List Tweak
  | known, [] => known
  | known, t :: ts => if known.any t.same then withNew known ts else withNew (known ++ [t]) ts

theorem addNew_tells (file : String) : ∀ known ts : List Tweak,
    Tells (addNew file known ts : Call μ (List Tweak)) fun _ => .ok (withNew known ts)
  | known, [] => .pure _
  | known, t :: ts => by
    unfold addNew withNew
    split
    · exact .after_say _ _ _ (addNew_tells file known ts)
    · exact addNew_tells file _ ts

theorem withNew_append : ∀ known ts us : List Tweak,
    withNew known (ts ++ us) = withNew (withNew known ts) us
  | _, [], _ => rfl
  | known, t :: ts, us => by
    rw [List.cons_append, withNew, withNew]
    split <;> exact withNew_append _ ts us

/-- A tweak that is the first one of its identifier in a list. -/
def FirstIn (all : List Tweak) (t : Tweak) : Prop :=
  ∃ before after, all = before ++ t :: after ∧ ∀ u ∈ before, u.key ≠ t.key

theorem any_same {known : List Tweak} {t : Tweak} :
    known.any t.same = true ↔ ∃ u ∈ known, u.key = t.key := by
  rw [List.any_eq_true]
  exact exists_congr fun u => and_congr_right fun _ => beq_iff_eq.trans eq_comm

theorem mem_withNew {t : Tweak} : ∀ {known ts : List Tweak}, t ∈ withNew known ts ↔
    t ∈ known ∨ FirstIn ts t ∧ ∀ u ∈ known, u.key ≠ t.key
  | known, [] => by
    refine ⟨.inl, fun h => h.elim id ?_⟩
    rintro ⟨⟨before, after, hall, -⟩, -⟩
    exact absurd hall.symm (by simp)
  | known, t' :: ts => by
    have hcons : FirstIn (t' :: ts) t ↔ t = t' ∨ FirstIn ts t ∧ t'.key ≠ t.key := by
      constructor
      · rintro ⟨before, after, hall, hfirst⟩
        cases before with
        | nil => exact .inl (List.cons.inj hall).1.symm
        | cons u before =>
          obtain ⟨rfl, rfl⟩ := List.cons.inj hall
          exact .inr ⟨⟨before, after, rfl, fun u hu => hfirst u (List.mem_cons_of_mem _ hu)⟩,
            hfirst _ List.mem_cons_self⟩
      · rintro (rfl | ⟨⟨before, after, rfl, hfirst⟩, hne⟩)
        · exact ⟨[], ts, rfl, List.forall_mem_nil _⟩
        · exact ⟨t' :: before, after, rfl, List.forall_mem_cons.mpr ⟨hne, hfirst⟩⟩
    rw [withNew, hcons]
    split
    · next hany =>
      obtain ⟨u, hu, hkey⟩ := any_same.mp hany
      rw [mem_withNew]
      constructor
      · rintro (h | ⟨h, hnew⟩)
        · exact .inl h
        · exact .inr ⟨.inr ⟨h, hkey ▸ hnew u hu⟩, hnew⟩
      · rintro (h | ⟨rfl | ⟨h, -⟩, hnew⟩)
        · exact .inl h
        · exact absurd hkey (hnew u hu)
        · exact .inr ⟨h, hnew⟩
    · next hany =>
      have hnone : ∀ u ∈ known, u.key ≠ t'.key := fun u hu hkey => hany (any_same.mpr ⟨u, hu, hkey⟩)
      rw [mem_withNew, List.mem_append, List.mem_singleton, List.forall_mem_append,
        List.forall_mem_singleton]
      constructor
      · rintro ((h | rfl) | ⟨h, hnew, hne⟩)
        · exact .inl h
        · exact .inr ⟨.inl rfl, hnone⟩
        · exact .inr ⟨.inr ⟨h, hne⟩, hnew⟩
      · rintro (h | ⟨rfl | ⟨h, hne⟩, hnew⟩)
        · exact .inl (.inl h)
        · exact .inl (.inr rfl)
        · exact .inr ⟨h, hnew, hne⟩

/-- The tweaks that count are in the order of their definitions. -/
theorem withNew_sublist : ∀ known ts : List Tweak, (withNew known ts).Sublist (known ++ ts)
  | known, [] => by
    rw [withNew, List.append_nil]
  | known, t :: ts => by
    rw [withNew]
    split
    · exact (withNew_sublist known ts).trans ((List.sublist_cons_self t ts).append_left known)
    · have h := withNew_sublist (known ++ [t]) ts
      rwa [List.append_assoc] at h

/-! ## Reading a folder -/

section

variable {disk : Disk} {dir : Path} {sh sh' : Shelf μ} {folder : Folder} {name : String}
  {names : List String} {known ts : List Tweak}

/-- What is found in a file of a directory. -/
def foundIn (disk : Disk) (dir : Path) (name : String) : Except Failure (List Tweak) :=
  found disk (dir.child name)

/-- The tweaks of the files that can be read. -/
def allFound (disk : Disk) (dir : Path) (names : List String) : List Tweak :=
  names.flatMap fun name => (foundIn disk dir name).toOption.getD []

/-- The reasons why files cannot be read, put down after others. -/
def reasons (found : String → Except Failure (List Tweak)) :
    List String → Assoc String String → Assoc String String
  | [], errors => errors
  | name :: names, errors => match found name with
    | .ok _ => reasons found names errors
    | .error e => reasons found names (Assoc.put name e.message errors)

/-- The reason of a file is the failure that is found in it. -/
theorem get?_reasons {found : String → Except Failure (List Tweak)} {name : String} :
    ∀ {names : List String} {errors : Assoc String String},
      Assoc.get? name (reasons found names errors) =
        match found name with
        | .ok _ => Assoc.get? name errors
        | .error e => if name ∈ names then some e.message else Assoc.get? name errors
  | [], errors => by cases found name <;> simp [reasons]
  | name' :: names, errors => by
    unfold reasons
    by_cases hname : name' = name
    · subst hname
      cases hfound : found name' with
      | ok ts => simp only [get?_reasons, hfound]
      | error e => simp [get?_reasons, hfound, Assoc.get?_put]
    · have hmem : name ∈ name' :: names ↔ name ∈ names := by
        rw [List.mem_cons]
        exact or_iff_right fun h => hname h.symm
      cases found name' with
      | ok ts => rw [get?_reasons]; simp only [hmem]
      | error e => rw [get?_reasons, Assoc.get?_put, if_neg hname]; simp only [hmem]

/-- Reading a file gives its tweaks or a fault of the file. -/
theorem rescue_readFrom (file : Path) (h : Host μ) :
    ∃ h', h'.disk = h.disk ∧ ((readFrom file : Call μ (List Tweak)).rescue isFileFault).on h =
      (match found h.disk file with
        | .ok ts => .ok (.ok ts)
        | .error e => if isFileFault e then .ok (.error e) else .error e, h') := by
  have hread := readFrom_tells file h
  rw [Act.rescue, Act.on_bind, Act.on_attempt]
  revert hread
  rcases (readFrom file).on h with ⟨e | ts, h'⟩ <;> rintro ⟨hx, hd⟩ <;> dsimp only at hx hd ⊢ <;>
    rw [← hx]
  · refine ⟨h', hd, ?_⟩
    dsimp only
    cases isFileFault e <;> rfl
  · exact ⟨h', hd, rfl⟩

/-- Reading a folder reads its first file and goes on, unless the file has another failure than
a fault. -/
theorem loadFiles_cons (hsh : sh.host.disk = disk) (hdir : folder.directory = dir) (name : String)
    (names : List String) (known : List Tweak) :
    ∃ sh₁, sh₁.host.disk = disk ∧ (loadFiles folder (name :: names) known).on sh =
      match foundIn disk dir name with
      | .ok ts => (loadFiles folder names (withNew known ts)).on sh₁
      | .error e =>
        if isFileFault e then
          (loadFiles { folder with errors := Assoc.put name e.message folder.errors } names known).on sh₁
        else (.error e, sh₁) := by
  subst hsh hdir
  obtain ⟨host, hdisk, hread⟩ := rescue_readFrom (folder.directory.child name) sh.host
  rw [loadFiles]
  dsimp only
  rw [Act.on_bind, Part.on_lift, show Shelf.hostPart.get sh = sh.host from rfl, hread, foundIn]
  cases hfound : found sh.host.disk (folder.directory.child name) with
  | ok ts =>
    obtain ⟨hadded, hkept⟩ := addNew_tells name known ts host
    have hlift : (Shelf.hostPart.lift (addNew name known ts)).on { sh with host } =
        (.ok (withNew known ts), { sh with host := ((addNew name known ts).on host).2 }) := by
      rw [Part.on_lift]
      exact congrArg (·, _) hadded
    exact ⟨{ sh with host := ((addNew name known ts).on host).2 }, hkept.trans hdisk,
      Act.on_bind_of_ok hlift⟩
  | error e =>
    dsimp only
    cases isFileFault e with
    | true =>
      refine ⟨_, ?_, rfl⟩
      exact hdisk
    | false =>
      refine ⟨_, ?_, rfl⟩
      exact hdisk

/-- A folder of which every file can be read or has a fault of its own. -/
theorem loadFiles_returns (known : List Tweak) (hsh : sh.host.disk = disk) (hdir : folder.directory = dir)
    (h : ∀ name ∈ names, ∀ e, foundIn disk dir name = .error e → isFileFault e = true) :
    ∃ sh', (loadFiles folder names known).on sh =
      (.ok ({ folder with errors := reasons (foundIn disk dir) names folder.errors },
        withNew known (allFound disk dir names)), sh') := by
  induction names generalizing folder known sh with
  | nil => exact ⟨sh, rfl⟩
  | cons name names ih =>
    rw [List.forall_mem_cons] at h
    obtain ⟨sh₁, hsh₁, hrun⟩ := loadFiles_cons hsh hdir name names known
    rw [hrun, allFound, List.flatMap_cons, reasons]
    cases hfound : foundIn disk dir name with
    | ok ts =>
      rw [show (Except.ok ts : Except Failure _).toOption.getD [] = ts from rfl, withNew_append]
      exact ih _ hsh₁ hdir h.2
    | error e =>
      dsimp only
      rw [if_pos (h.1 e hfound)]
      have hdir' : ({ folder with errors := Assoc.put name e.message folder.errors } : Folder).directory =
        dir := hdir
      exact ih _ hsh₁ hdir' h.2

/-- A folder that has been read has no other failures than faults of its files. -/
theorem faults_of_loadFiles (hsh : sh.host.disk = disk) (hdir : folder.directory = dir)
    {r : Folder × List Tweak} (h : (loadFiles folder names known).on sh = (.ok r, sh')) :
    ∀ name ∈ names, ∀ e, foundIn disk dir name = .error e → isFileFault e = true := by
  induction names generalizing folder known sh with
  | nil => exact List.forall_mem_nil _
  | cons name names ih =>
    obtain ⟨sh₁, hsh₁, hrun⟩ := loadFiles_cons hsh hdir name names known
    rw [hrun] at h
    rw [List.forall_mem_cons]
    cases hfound : foundIn disk dir name with
    | ok ts =>
      rw [hfound] at h
      exact ⟨nofun, ih hsh₁ hdir h⟩
    | error e =>
      rw [hfound] at h
      dsimp only at h
      cases hfault : isFileFault e with
      | true =>
        rw [if_pos hfault] at h
        have hdir' : ({ folder with errors := Assoc.put name e.message folder.errors } : Folder).directory =
          dir := hdir
        exact ⟨fun e' he' => Except.error.inj he' ▸ hfault, ih hsh₁ hdir' h⟩
      | false =>
        rw [if_neg (by rw [hfault]; decide)] at h
        exact nomatch h

end

/-! ## Sound files -/

/-- The text of a file can be read, or the platform refuses to: its bytes are those of a text, and
the integers in it are not too long. -/
structure Legible (disk : Disk) (p : Path) : Prop where
  named : p.text.toList.contains (Char.ofNat 0) = false
  decoded : ∀ bytes, ((Disk.readBytes p).on disk).1 = .ok bytes → ∃ text, Disk.textOf bytes = .ok text ∧
    ∀ digits, Json.read text ≠ .error (.badValue (Json.tooLongText digits))

/-- A legible file with definitions of which the fields that are converted can be converted. -/
structure Sound (disk : Disk) (p : Path) : Prop where
  legible : Legible disk p
  converts : ∀ d, ((Disk.readJson p).on disk).1 = .ok d →
    ∀ x ∈ definitions d, isNameless x = false → Tweak.Converts x

/-- A path without a null character has a location or is refused by the platform. -/
theorem isSystem_of_locate {disk : Disk} {p : Path} (hp : p.text.toList.contains (Char.ofNat 0) = false)
    {f : Failure} (h : disk.locate p = .error f) : f.isSystem = true := by
  unfold Disk.locate at h
  rw [hp] at h
  simp only [Bool.false_eq_true, if_false] at h
  split at h
  · rw [← Except.error.inj h]
    rfl
  · revert h
    cases disk.follow (if p.isAbsolute then [] else disk.here) p.parts with
    | ok loc => exact nofun
    | error k => intro h; rw [← Except.error.inj h]; rfl

theorem isSystem_of_readBytes {disk : Disk} {p : Path}
    (hp : p.text.toList.contains (Char.ofNat 0) = false) {f : Failure}
    (h : ((Disk.readBytes p).on disk).1 = .error f) : f.isSystem = true := by
  unfold Disk.readBytes Disk.locating at h
  rw [Act.on_bind, Act.on_of] at h
  revert h
  rcases hloc : disk.locate p with e | loc
  · intro h
    obtain rfl : e = f := Except.error.inj h
    exact isSystem_of_locate hp hloc
  · dsimp only
    rw [Act.on_bind, Act.on_view]
    dsimp only
    split <;> intro h
    · exact nomatch h
    · rw [← Except.error.inj h]
      rfl
    · rw [← Except.error.inj h]
      rfl

/-- What goes wrong with a JSON text is a fault at a place or an integer that is too long. -/
theorem fault_of_read {text : String} {f : Failure} (h : Json.read text = .error f) :
    (∃ fault, f = .json fault) ∨ ∃ digits, f = .badValue (Json.tooLongText digits) := by
  unfold Json.read at h
  dsimp only at h
  split at h
  · exact .inl ⟨_, (Except.error.inj h).symm⟩
  · split at h
    · exact .inl ⟨_, (Except.error.inj h).symm⟩
    · exact .inr ⟨_, (Except.error.inj h).symm⟩
    · split at h
      · exact nomatch h
      · exact .inl ⟨_, (Except.error.inj h).symm⟩

/-- What goes wrong with the JSON value of a legible file is a fault of the file. -/
theorem Legible.fault {disk : Disk} {p : Path} (h : Legible disk p) {f : Failure}
    (hf : ((Disk.readJson p).on disk).1 = .error f) : isFileFault f = true := by
  have hsystem : ∀ e : Failure, e.isSystem = true → isFileFault e = true := fun e he => by
    simp only [isFileFault, he, Bool.true_or]
  unfold Disk.readJson Disk.readText at hf
  rw [Act.on_bind, Act.on_bind] at hf
  have hbytes := h.decoded
  have hrefused : ∀ e, ((Disk.readBytes p).on disk).1 = .error e → e.isSystem = true := fun _ =>
    isSystem_of_readBytes h.named
  revert hf hbytes hrefused
  rcases (Disk.readBytes p).on disk with ⟨e | bytes, d'⟩ <;> intro hf hbytes hrefused
  · obtain rfl : e = f := Except.error.inj hf
    exact hsystem e (hrefused e rfl)
  · obtain ⟨text, htext, hlong⟩ := hbytes bytes rfl
    dsimp only at hf
    rw [Act.on_result, htext] at hf
    rcases fault_of_read hf with ⟨fault, rfl⟩ | ⟨digits, rfl⟩
    · rfl
    · exact absurd hf (hlong digits)

/-- **A sound file** has no other failures than faults of its own. -/
theorem Sound.fault {disk : Disk} {p : Path} (h : Sound disk p) {f : Failure}
    (hf : found disk p = .error f) : isFileFault f = true := by
  unfold found at hf
  rcases hread : ((Disk.readJson p).on disk).1 with e | d
  · rw [hread] at hf
    obtain rfl : e = f := Except.error.inj hf
    exact h.legible.fault hread
  · rw [hread] at hf
    have honly : Malformed.Only (defined p.name d) := by
      refine .mapM fun x hx => Tweak.only_malformed ?_ _
      obtain ⟨hmem, hnamed⟩ := List.mem_filter.mp hx
      exact h.converts d hread x hmem (by simpa using hnamed)
    obtain ⟨cause, rfl⟩ := honly f hf
    rfl

/-! ## What comes of a folder -/

/-- The tweaks of a folder that exists and has not been read are read from the JSON files in it. -/
theorem tweaks_on {sh : Shelf μ} {folder : Folder} {loc : List String}
    (hcatalog : sh.catalog = .folder folder) (hnew : folder.loaded = none)
    (hloc : sh.host.disk.locate folder.directory = .ok loc)
    (hdir : sh.host.disk.at? loc = some .directory) :
    tweaks.on sh = (do
      let r ← loadFiles { folder with errors := [] }
        ((sh.host.disk.names loc).filter fun n => n.endsWith ".json") []
      Shelf.hostPart.lift (Host.say .info speaker
        ("Loaded " ++ toString r.2.length ++ " tweaks from " ++ folder.directory.text))
      remember { r.1 with loaded := some r.2 }
      return r.2).on { sh with catalog := .folder { folder with errors := [] } } := by
  have hthere : (Shelf.hostPart.lift (Host.onDisk (Disk.isDir folder.directory))).on sh =
      (.ok true, sh) := by
    have hlook : sh.host.disk.look folder.directory = .ok (some .directory) := by
      rw [Disk.look, hloc, ← hdir]
    simp only [Part.on_lift, Host.onDisk, Disk.isDir, Act.on_of, Shelf.hostPart, Host.diskPart, hlook]
    rfl
  have hlist : (Disk.list folder.directory).on sh.host.disk =
      (.ok (sh.host.disk.names loc), sh.host.disk) := by
    rw [Disk.list, Act.on_bind_of_ok (Disk.locating_on hloc), Act.on_view]
  have hnames : (Shelf.hostPart.lift (Host.onDisk (Disk.list folder.directory))).on
      { sh with catalog := .folder { folder with errors := [] } } =
        (.ok (sh.host.disk.names loc), { sh with catalog := .folder { folder with errors := [] } }) := by
    simp only [Part.on_lift, Host.onDisk, Shelf.hostPart, Host.diskPart, hlist]
  have hread : tweaks.on sh = (load folder).on sh := by
    rw [tweaks, Act.on_bind, Act.on_view, hcatalog]
    dsimp only
    rw [hnew]
  rw [hread, load, Act.on_bind_of_ok hthere]
  exact Act.on_bind_of_ok hnames

/-- **A folder with broken files.**  The tweaks of an existing folder that has not been read are
returned exactly when every file that cannot be read has a fault of its own.  They are then the
first ones of their identifiers among the tweaks of the files that can be read, in the order of
the files, and exactly the other files are listed with their reasons.  Sound files have no other
failures than faults of their own. -/
theorem tweaks_of_folder {sh : Shelf μ} {folder : Folder} {loc : List String}
    (hcatalog : sh.catalog = .folder folder) (hnew : folder.loaded = none)
    (hloc : sh.host.disk.locate folder.directory = .ok loc)
    (hdir : sh.host.disk.at? loc = some .directory) :
    let files := (sh.host.disk.names loc).filter fun n => n.endsWith ".json"
    let found := foundIn sh.host.disk folder.directory
    ((∃ ts sh', tweaks.on sh = (.ok ts, sh')) ↔
      ∀ name ∈ files, ∀ e, found name = .error e → isFileFault e = true) ∧
    (∀ ts sh', tweaks.on sh = (.ok ts, sh') →
      (∀ t, t ∈ ts ↔ FirstIn (allFound sh.host.disk folder.directory files) t) ∧
      ts.Sublist (allFound sh.host.disk folder.directory files) ∧
      ∀ name text, Assoc.get? name sh'.catalog.errors = some text ↔
        name ∈ files ∧ ∃ e, found name = .error e ∧ e.message = text) ∧
    ∀ name ∈ files, Sound sh.host.disk (folder.directory.child name) →
      ∀ e, found name = .error e → isFileFault e = true := by
  intro files found
  have hload := tweaks_on hcatalog hnew hloc hdir
  have hsh : ({ sh with catalog := .folder { folder with errors := [] } } : Shelf μ).host.disk =
    sh.host.disk := rfl
  have hfolder : ({ folder with errors := [] } : Folder).directory = folder.directory := rfl
  have hreturns : (∀ name ∈ files, ∀ e, found name = .error e → isFileFault e = true) →
      ∃ sh', tweaks.on sh = (.ok (withNew [] (allFound sh.host.disk folder.directory files)), sh') ∧
        sh'.catalog.errors = reasons found files [] := by
    intro h
    obtain ⟨sh₂, hrun⟩ := loadFiles_returns [] hsh hfolder h
    rw [hload, Act.on_bind_of_ok hrun]
    exact ⟨_, rfl, rfl⟩
  have hfaults : ∀ ts sh', tweaks.on sh = (.ok ts, sh') →
      ∀ name ∈ files, ∀ e, found name = .error e → isFileFault e = true := by
    intro ts sh' hts
    obtain ⟨r, sh₂, hrun, -⟩ := Act.ok_of_on_bind (hload.symm.trans hts)
    exact faults_of_loadFiles hsh hfolder hrun
  refine ⟨⟨fun ⟨ts, sh', hts⟩ => hfaults ts sh' hts, fun h => ?_⟩, fun ts sh' hts => ?_,
    fun name _ hsound e he => hsound.fault he⟩
  · obtain ⟨sh', hts, -⟩ := hreturns h
    exact ⟨_, sh', hts⟩
  · obtain ⟨sh₁, hts', herrors⟩ := hreturns (hfaults ts sh' hts)
    obtain ⟨heq, rfl⟩ := Prod.mk.inj (hts.symm.trans hts')
    obtain rfl := Except.ok.inj heq
    refine ⟨fun t => ?_, withNew_sublist [] _, fun name text => ?_⟩
    · rw [mem_withNew]
      simp
    · rw [herrors, get?_reasons]
      cases found name with
      | ok ts => exact ⟨nofun, fun ⟨_, _, h, _⟩ => nomatch h⟩
      | error e =>
        dsimp only
        split
        · next hmem =>
          constructor
          · intro h
            exact ⟨hmem, e, rfl, Option.some.inj h⟩
          · rintro ⟨-, e', he', htext⟩
            rw [Except.error.inj he', htext]
        · next hmem => exact ⟨(fun h => by cases h), fun h => absurd h.1 hmem⟩

/-! ## Samples -/

section

/-- A shelf with a folder of two files with texts. -/
def shelfOf (a b : String) : Shelf Unit where
  catalog := .folder { directory := Path.ofText "/c" }
  host :=
    { machine := ()
      disk := { entries := [(["c"], .directory), (["c", "a.json"], .file (Encoding.utf8 a)),
        (["c", "b.json"], .file (Encoding.utf8 b))] } }

/-- A file with one definition. -/
def plainFile : String := "\x7b\"id\":\"b\"\x7d"

theorem folder_shelfOf (a b : String) :
    (shelfOf a b).catalog = .folder { directory := Path.ofText "/c" } ∧
      (shelfOf a b).host.disk.locate (Path.ofText "/c") = .ok ["c"] ∧
      (shelfOf a b).host.disk.at? ["c"] = some .directory := ⟨rfl, rfl, rfl⟩

theorem names_shelfOf (a b : String) : ((shelfOf a b).host.disk.names ["c"]).filter
    (fun n => n.endsWith ".json") = ["a.json", "b.json"] := by
  have hsort : Text.sort ["a.json", "b.json"] = ["a.json", "b.json"] :=
    List.mergeSort_of_pairwise (by decide +kernel)
  have hnames : (shelfOf a b).host.disk.names ["c"] = Text.sort ["a.json", "b.json"] := rfl
  rw [hnames, hsort]
  decide +kernel

/-- Whether a file has been read or has a fault of its own. -/
def passes (found : Except Failure (List Tweak)) : Bool :=
  match found with
  | .ok _ => true
  | .error e => isFileFault e

/-- A file that breaks off is passed over and listed, and the other one is read. -/
theorem sample_passed_over : ∃ ts sh', tweaks.on (shelfOf "[" plainFile) = (.ok ts, sh') ∧
    (∀ t, t ∈ ts ↔ FirstIn (allFound (shelfOf "[" plainFile).host.disk (Path.ofText "/c")
      ["a.json", "b.json"]) t) ∧
    (Assoc.get? "a.json" sh'.catalog.errors).isSome = true := by
  obtain ⟨hcatalog, hloc, hdir⟩ := folder_shelfOf "[" plainFile
  obtain ⟨hreturns, hresult, -⟩ := tweaks_of_folder hcatalog rfl hloc hdir
  rw [names_shelfOf] at hreturns hresult
  have hfound : ["a.json", "b.json"].all (fun name =>
      passes (foundIn (shelfOf "[" plainFile).host.disk (Path.ofText "/c") name)) = true := by
    decide +kernel
  have hpasses : ∀ {r : Except Failure (List Tweak)} {e : Failure}, passes r = true → r = .error e →
      isFileFault e = true := by
    rintro _ e h rfl
    exact h
  obtain ⟨ts, sh', hts⟩ := hreturns.mpr fun name hname e he =>
    hpasses (List.all_eq_true.mp hfound name hname) he
  obtain ⟨hfirst, -, herrors⟩ := hresult ts sh' hts
  refine ⟨ts, sh', hts, hfirst, ?_⟩
  have hbroken : (foundIn (shelfOf "[" plainFile).host.disk (Path.ofText "/c") "a.json").toBool =
    false := by decide +kernel
  cases he : foundIn (shelfOf "[" plainFile).host.disk (Path.ofText "/c") "a.json" with
  | ok ts => rw [he] at hbroken; cases hbroken
  | error e =>
    rw [(herrors "a.json" e.message).mpr ⟨List.mem_cons_self, e, he, rfl⟩]
    rfl

/-- Tags that are no list keep the file and all others from being read, although the other file
holds a tweak. -/
theorem sample_unread :
    tweaks.fails (shelfOf "\x7b\"id\":\"a\",\"tags\":5\x7d" plainFile)
        (fun f sh => f = .mistyped "'int' object is not iterable" ∧ sh.catalog.errors = []) = true ∧
      ((foundIn (shelfOf "[" plainFile).host.disk (Path.ofText "/c") "b.json").toOption.map
        fun ts => ts.map Tweak.id) = some ["b"] := by
  refine ⟨?_, by decide +kernel⟩
  obtain ⟨hcatalog, hloc, hdir⟩ := folder_shelfOf "\x7b\"id\":\"a\",\"tags\":5\x7d" plainFile
  rw [Act.fails, tweaks_on hcatalog rfl hloc hdir, names_shelfOf]
  decide +kernel

end

end Catalog
end TweakEngine
