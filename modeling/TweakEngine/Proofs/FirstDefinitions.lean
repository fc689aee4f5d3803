/-
# The first definition of an identifier

The files of a folder may define an identifier again, in the same file or in a later one, and then
the first definition counts.  `Catalog.firsts` keeps of a list the tweaks whose identifier no tweak
before them has; the tweaks of a folder are the first ones among those of the files that can be
read, one file after the other (`Catalog.withNew_nil`).  So identifiers are different up to case,
and looking one up in any case finds its first definition (`Catalog.find?_firsts`).

A folder that has been read is not read again until it is reloaded: whatever is looked up and
whatever becomes of the disk meanwhile, the answers stay (`Shelf.Visit.catalog`).
`Catalog.first_definitions` puts this together.
-/

import TweakEngine.Proofs.BrokenFiles
import TweakEngine.Proofs.Definitions
import Mathlib.Logic.Relation

namespace TweakEngine

variable {μ : Type}

namespace Catalog

/-! ## First definitions -/

/-- The tweaks of a list whose identifier no tweak before them has. -/
def firsts (ts : List Tweak) : List Tweak :=
  (ts.zipIdx.filter fun e => (ts.take e.2).all fun u => u.key != e.1.key).map Prod.fst

variable {ts : List Tweak} {t : Tweak}

/-- One more tweak counts when its identifier is new. -/
theorem firsts_append_one (ts : List Tweak) (t : Tweak) :
    firsts (ts ++ [t]) = firsts ts ++ if ts.any t.same then [] else [t] := by
  have hbefore : (ts.zipIdx.filter fun e => ((ts ++ [t]).take e.2).all fun u => u.key != e.1.key) =
      ts.zipIdx.filter fun e => (ts.take e.2).all fun u => u.key != e.1.key := by
    refine List.filter_congr fun e he => ?_
    have hlt : e.2 < ts.length := by simpa using List.snd_lt_of_mem_zipIdx he
    rw [List.take_append_of_le_length hlt.le]
  have hnew : (ts.all fun u => u.key != t.key) = !ts.any t.same := by
    rw [List.not_any_eq_all_not]
    exact List.all_congr rfl fun u => congrArg (!·) Bool.beq_comm
  rw [firsts, firsts, List.zipIdx_append, List.filter_append, List.map_append, hbefore]
  congr 1
  rw [List.zipIdx_singleton, List.filter_singleton]
  dsimp only
  rw [Nat.zero_add, List.take_left, hnew]
  cases ts.any t.same <;> rfl

theorem any_same_iff : ts.any t.same = true ↔ t.key ∈ ts.map Tweak.key :=
  any_same.trans List.mem_map.symm

/-- Every identifier has a first definition. -/
theorem mem_keys_firsts (ts : List Tweak) (key : String) :
    key ∈ (firsts ts).map Tweak.key ↔ key ∈ ts.map Tweak.key := by
  induction ts using List.reverseRecOn with
  | nil => exact Iff.rfl
  | append_singleton ts t ih =>
    rw [firsts_append_one, List.map_append, List.map_append, List.mem_append, List.mem_append, ih]
    split
    · next hknown =>
      refine or_congr_right' fun hkey => iff_of_false List.not_mem_nil fun h => hkey ?_
      rw [List.mem_singleton.mp h]
      exact any_same_iff.mp hknown
    · exact Iff.rfl

/-- First definitions have different identifiers. -/
theorem nodup_firsts (ts : List Tweak) : ((firsts ts).map Tweak.key).Nodup := by
  induction ts using List.reverseRecOn with
  | nil => exact List.nodup_nil
  | append_singleton ts t ih =>
    rw [firsts_append_one, List.map_append]
    split
    · rwa [List.map_nil, List.append_nil]
    · next hnew =>
      refine List.nodup_append.mpr ⟨ih, List.nodup_singleton _, fun a ha b hb hab => hnew ?_⟩
      rw [any_same_iff, ← mem_keys_firsts, ← List.mem_singleton.mp hb, ← hab]
      exact ha

/-- **Looking an identifier up** among the first definitions finds its first definition. -/
theorem find?_firsts (ts : List Tweak) (key : String) :
    ((firsts ts).find? fun t => t.key == key) = ts.find? fun t => t.key == key := by
  induction ts using List.reverseRecOn with
  | nil => rfl
  | append_singleton ts t ih =>
    rw [firsts_append_one, List.find?_append, List.find?_append, ih]
    split
    · next hknown =>
      -- if the new one is looked up, one before it is found already
      cases hkey : t.key == key with
      | false => rw [List.find?_cons_of_neg (by simp [hkey]), List.find?_nil]
      | true =>
        obtain ⟨u, hu, hsame⟩ := any_same.mp hknown
        have hfound : (ts.find? fun t => t.key == key).isSome = true :=
          List.find?_isSome.mpr ⟨u, hu, by rw [hsame]; exact hkey⟩
        obtain ⟨first, hfirst⟩ := Option.isSome_iff_exists.mp hfound
        rw [hfirst]
        rfl
    · rfl

/-- **Reading files keeps the first definitions.** -/
theorem withNew_nil (ts : List Tweak) : withNew [] ts = firsts ts := by
  induction ts using List.reverseRecOn with
  | nil => rfl
  | append_singleton ts t ih =>
    have hknown : (firsts ts).any t.same = ts.any t.same := by
      rw [Bool.eq_iff_iff, any_same_iff, any_same_iff, mem_keys_firsts]
    rw [withNew_append, ih, firsts_append_one, withNew, withNew, withNew, hknown]
    cases ts.any t.same with
    | true => exact (List.append_nil _).symm
    | false => rfl

/-- What is found for an identifier is its first definition. -/
theorem firstIn_of_find? {key : String} (h : (ts.find? fun t => t.key == key) = some t) :
    FirstIn ts t ∧ t.key = key := by
  obtain ⟨hkey, before, after, rfl, hbefore⟩ := List.find?_eq_some_iff_append.mp h
  have hkey := beq_iff_eq.mp hkey
  refine ⟨⟨before, after, rfl, fun u hu => ?_⟩, hkey⟩
  rw [hkey]
  simpa using hbefore u hu

/-! ## Folders that can be read -/

/-- A directory with the names of its JSON files, each of which can be read or has a fault of its
own. -/
structure Loadable (disk : Disk) (dir : Path) (files : List String) : Prop where
  listed : ∃ loc, disk.locate dir = .ok loc ∧ disk.at? loc = some .directory ∧
    files = (disk.names loc).filter fun name => name.endsWith ".json"
  faults : ∀ name ∈ files, ∀ e, foundIn disk dir name = .error e → isFileFault e = true

theorem Loadable.sorted {disk : Disk} {dir : Path} {files : List String}
    (h : Loadable disk dir files) : files.Pairwise (· ≤ ·) := by
  obtain ⟨loc, -, -, rfl⟩ := h.listed
  exact (Text.pairwise_sort _).filter _

variable {sh sh' : Shelf μ} {folder : Folder} {files : List String}

/-- The folder when it has been read. -/
def readFolder (disk : Disk) (dir : Path) (files : List String) : Folder where
  directory := dir
  loaded := some (firsts (allFound disk dir files))
  errors := reasons (foundIn disk dir) files []

/-- A folder that has not been read is read on first use. -/
theorem tweaks_on_loadable (hcatalog : sh.catalog = .folder folder) (hnew : folder.loaded = none)
    (h : Loadable sh.host.disk folder.directory files) :
    ∃ host, tweaks.on sh = (.ok (firsts (allFound sh.host.disk folder.directory files)),
      ⟨.folder (readFolder sh.host.disk folder.directory files), host⟩) := by
  obtain ⟨loc, hloc, hdir, rfl⟩ := h.listed
  have hsh : ({ sh with catalog := .folder { folder with errors := [] } } : Shelf μ).host.disk =
    sh.host.disk := rfl
  have hfolder : ({ folder with errors := [] } : Folder).directory = folder.directory := rfl
  obtain ⟨sh₁, hrun⟩ := loadFiles_returns [] hsh hfolder h.faults
  rw [tweaks_on hcatalog hnew hloc hdir, Act.on_bind_of_ok hrun, withNew_nil]
  exact ⟨_, rfl⟩

/-- The reasons that are put down belong to exactly the files that cannot be read. -/
theorem get?_reasons_nil {found : String → Except Failure (List Tweak)} {name text : String} :
    Assoc.get? name (reasons found files []) = some text ↔
      name ∈ files ∧ ∃ e, found name = .error e ∧ e.message = text := by
  rw [get?_reasons]
  cases found name with
  | ok ts => exact ⟨nofun, fun ⟨_, _, h, _⟩ => nomatch h⟩
  | error e =>
    by_cases hmem : name ∈ files
    · simp [hmem]
    · simp [hmem, Assoc.get?]

end Catalog

/-! ## Between two readings -/

open Catalog

/-- What may become of a shelf while its catalog is not reloaded: its tweaks are looked up in any
way, or the host changes, its disk included. -/
inductive Shelf.Visit : Shelf μ → Shelf μ → Prop
  | lists (sh) : Visit sh (tweaks.on sh).2
  | finds (sh) (id : String) : Visit sh ((find? id).on sh).2
  | gathers (sh) (category : String) : Visit sh ((inCategory category).on sh).2
  | searches (sh) (term : String) : Visit sh ((search term).on sh).2
  | sorts (sh) : Visit sh (categories.on sh).2
  | changes (sh) (host : Host μ) : Visit sh { sh with host }

namespace Shelf

variable {sh sh' : Shelf μ} {ts : List Tweak}

/-- A visit leaves a catalog that lists its tweaks as it is. -/
theorem Visit.catalog (h : Visit sh sh') (hlisted : sh.catalog.listed? = some ts) :
    sh'.catalog = sh.catalog := by
  have hread := tweaks_on_listed hlisted
  cases h with
  | lists => rw [hread]
  | finds id => rw [find?, Act.on_bind_of_ok hread]; rfl
  | gathers category => rw [inCategory, Act.on_bind_of_ok hread]; rfl
  | searches term =>
    rw [search]
    split
    · rfl
    · rw [Act.on_bind_of_ok hread]; rfl
  | sorts => rw [categories, Act.on_bind_of_ok hread]; rfl
  | changes host => rfl

/-- Any number of visits do. -/
theorem catalog_of_visits (h : Relation.ReflTransGen Visit sh sh')
    (hlisted : sh.catalog.listed? = some ts) : sh'.catalog = sh.catalog := by
  induction h with
  | refl => rfl
  | tail _ hvisit ih =>
    rw [← ih] at hlisted
    exact (hvisit.catalog hlisted).trans ih

end Shelf

namespace Catalog

variable {sh : Shelf μ} {folder : Folder} {files : List String}

/-- **The first definition counts.**  A folder of which every file can be read or has a fault of its
own has the tweaks of the files that can be read, in the order of the files and of each file, less
those whose identifier occurred before.  So identifiers are different, and the files with faults are
listed with their reasons.  Whatever is looked up then and whatever becomes of the disk, the same
tweaks are given, and an identifier in any case gives its first definition; only a folder that is
reloaded is read again. -/
theorem first_definitions (hcatalog : sh.catalog = .folder folder) (hnew : folder.loaded = none)
    (h : Loadable sh.host.disk folder.directory files) :
    let all := allFound sh.host.disk folder.directory files
    ∃ sh₁, tweaks.on sh = (.ok (firsts all), sh₁) ∧ files.Pairwise (· ≤ ·) ∧
      ((firsts all).map Tweak.key).Nodup ∧
      (∀ name text, Assoc.get? name sh₁.catalog.errors = some text ↔
        name ∈ files ∧ ∃ e, foundIn sh.host.disk folder.directory name = .error e ∧ e.message = text) ∧
      (∀ id, (find? id).on sh = (find? id).on sh₁) ∧
      ∀ sh₂, Relation.ReflTransGen Shelf.Visit sh₁ sh₂ →
        tweaks.on sh₂ = (.ok (firsts all), sh₂) ∧ sh₂.catalog.errors = sh₁.catalog.errors ∧
        (∀ t ∈ all, ∀ id, Text.fold id = t.key → ∃ first, FirstIn all first ∧ first.key = t.key ∧
          (find? id).on sh₂ = (.ok (some first), sh₂)) ∧
        (∀ id, Text.fold id ∉ all.map Tweak.key → (find? id).on sh₂ = (.ok none, sh₂)) ∧
        ∀ files', Loadable sh₂.host.disk folder.directory files' →
          ∃ sh₃, tweaks.on { sh₂ with catalog := sh₂.catalog.reload } =
            (.ok (firsts (allFound sh₂.host.disk folder.directory files')), sh₃) := by
  intro all
  obtain ⟨host, hread⟩ := tweaks_on_loadable hcatalog hnew h
  refine ⟨_, hread, h.sorted, nodup_firsts all, fun name text => get?_reasons_nil, fun id => ?_,
    fun sh₂ hvisits => ?_⟩
  · rw [find?, Act.on_bind_of_ok hread, Act.on_bind_of_ok (tweaks_on_listed rfl)]
  · have hsame := Shelf.catalog_of_visits hvisits rfl
    have hlisted : sh₂.catalog.listed? = some (firsts all) := by rw [hsame]; rfl
    have hfind : ∀ id, (find? id).on sh₂ =
        (.ok (all.find? fun t => t.key == Text.fold id), sh₂) := fun id => by
      rw [find?, Act.on_bind_of_ok (tweaks_on_listed hlisted), find?_firsts]
      rfl
    refine ⟨tweaks_on_listed hlisted, by rw [hsame], fun t ht id hid => ?_, fun id hid => ?_,
      fun files' h' => ?_⟩
    · have hsome : (all.find? fun t => t.key == Text.fold id).isSome = true :=
        List.find?_isSome.mpr ⟨t, ht, beq_iff_eq.mpr hid.symm⟩
      obtain ⟨first, hfirst⟩ := Option.isSome_iff_exists.mp hsome
      obtain ⟨hfirstIn, hkey⟩ := firstIn_of_find? hfirst
      exact ⟨first, hfirstIn, hkey.trans hid, by rw [hfind, hfirst]⟩
    · have hnone : (all.find? fun t => t.key == Text.fold id) = none :=
        List.find?_eq_none.mpr fun t ht hkey =>
          hid (List.mem_map.mpr ⟨t, ht, beq_iff_eq.mp hkey⟩)
      rw [hfind, hnone]
    · have hreload : ({ sh₂ with catalog := sh₂.catalog.reload } : Shelf μ).catalog =
          .folder { readFolder sh.host.disk folder.directory files with loaded := none } := by
        rw [hsame]
        rfl
      obtain ⟨host', hread'⟩ := tweaks_on_loadable hreload rfl h'
      exact ⟨_, hread'⟩

/-! ## Samples -/

section

/-- A file that defines an identifier twice. -/
def twiceFile : String :=
  "[\x7b\"id\":\"b\",\"name\":\"first\"\x7d,\x7b\"id\":\"B\",\"name\":\"second\"\x7d]"

/-- A folder of two files that can be read or have faults of their own can be read. -/
theorem loadable_shelfOf {a b : String} (h : ["a.json", "b.json"].all (fun name =>
    passes (foundIn (shelfOf a b).host.disk (Path.ofText "/c") name)) = true) :
    Loadable (shelfOf a b).host.disk (Path.ofText "/c") ["a.json", "b.json"] where
  listed := by
    obtain ⟨-, hloc, hdir⟩ := folder_shelfOf a b
    exact ⟨["c"], hloc, hdir, (names_shelfOf a b).symm⟩
  faults name hname e he := by
    have hpasses := List.all_eq_true.mp h name hname
    rw [he] at hpasses
    exact hpasses

/-- The tweaks of a file with two definitions and one with a third. -/
def threeDefinitions : List Tweak :=
  allFound (shelfOf twiceFile plainFile).host.disk (Path.ofText "/c") ["a.json", "b.json"]

/-- Of three definitions in two files the first one counts, in any case, and it still does when the
disk has been emptied. -/
theorem sample_first_counts :
    Loadable (shelfOf twiceFile plainFile).host.disk (Path.ofText "/c") ["a.json", "b.json"] ∧
      threeDefinitions.map Tweak.id = ["b", "B", "b"] ∧
      ∃ ts sh₁ first, tweaks.on (shelfOf twiceFile plainFile) = (.ok ts, sh₁) ∧ ts.length = 1 ∧
        FirstIn threeDefinitions first ∧
        (find? "B").on { sh₁ with host := { machine := () } } =
          (.ok (some first), { sh₁ with host := { machine := () } }) := by
  have hloadable : Loadable (shelfOf twiceFile plainFile).host.disk (Path.ofText "/c")
      ["a.json", "b.json"] := loadable_shelfOf (by decide +kernel)
  have hids : threeDefinitions.map Tweak.id = ["b", "B", "b"] := by decide +kernel
  have hone : (firsts threeDefinitions).length = 1 := by decide +kernel
  obtain ⟨t, ht, hid⟩ := List.mem_map.mp (hids ▸ List.mem_cons_self : "b" ∈ threeDefinitions.map Tweak.id)
  have hkey : Text.fold "B" = t.key := by
    rw [Tweak.key, hid]
    decide +kernel
  obtain ⟨sh₁, hread, -, -, -, -, hlater⟩ :=
    first_definitions (folder_shelfOf twiceFile plainFile).1 rfl hloadable
  obtain ⟨-, -, hfind, -⟩ := hlater _ (.single (.changes sh₁ { machine := () }))
  obtain ⟨first, hfirst, -, hfound⟩ := hfind t ht "B" hkey
  exact ⟨hloadable, hids, _, sh₁, first, hread, hone, hfirst, hfound⟩

end

end Catalog
end TweakEngine
