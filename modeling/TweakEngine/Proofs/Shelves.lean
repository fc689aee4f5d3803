/-
# Looking up tweaks

A catalog lists its tweaks once it is in memory or has been read.  From then on looking up
neither fails nor changes it, and every answer is `Catalog.known?`, so the answers of one
program agree with each other and with the catalog that it ends with.  Before that, looking
up reads the folder; whatever comes of it, the board and the writes on record stay.
-/

import TweakEngine.Board
import TweakEngine.Proofs.Actions

namespace TweakEngine

variable {μ σ S α β : Type}

namespace Catalog

/-- The tweaks of a catalog that is in memory or has been read. -/
def listed? : Catalog → Option (List Tweak)
  | memory ts => some ts
  | folder f => f.loaded

/-- The tweak with an identifier, as far as the catalog lists it. -/
def known? (c : Catalog) (tweakId : String) : Option Tweak :=
  (c.listed?.getD []).find? fun t => t.key == Text.fold tweakId

/-- A catalog that lists its tweaks stays as it is. -/
def Stays (c c' : Catalog) : Prop := c.listed? ≠ none → c' = c

variable {sh sh' : Shelf μ} {ts : List Tweak} {c c' : Catalog} {tweakId : String}

theorem Stays.refl (c : Catalog) : c.Stays c := fun _ => rfl

theorem Stays.trans {c'' : Catalog} (h : c.Stays c') (h' : c'.Stays c'') : c.Stays c'' := by
  intro hc
  have hsame := h hc
  rw [← hsame] at hc
  exact (h' hc).trans hsame

theorem known?_key {t : Tweak} (h : c.known? tweakId = some t) : t.key = Text.fold tweakId := by
  have hfound := List.find?_some (p := fun t : Tweak => t.key == Text.fold tweakId) h
  exact beq_iff_eq.mp hfound

/-- What is known depends on the folded identifier alone. -/
theorem known?_congr {a b : String} (h : Text.fold a = Text.fold b) : c.known? a = c.known? b := by
  rw [known?, known?, h]

/-! ## Catalogs that list their tweaks -/

theorem tweaks_on_listed (h : sh.catalog.listed? = some ts) : tweaks.on sh = (.ok ts, sh) := by
  unfold tweaks
  rw [Act.on_bind, Act.on_view]
  revert h
  cases sh.catalog with
  | memory ts' => intro h; cases h; rfl
  | folder f => intro h; rw [listed?] at h; dsimp only; rw [h]; rfl

theorem find?_on_listed (h : sh.catalog.listed? ≠ none) (tweakId : String) :
    (find? tweakId).on sh = (.ok (sh.catalog.known? tweakId), sh) := by
  obtain ⟨ts, hts⟩ := Option.ne_none_iff_exists'.mp h
  rw [find?, Act.on_bind_of_ok (tweaks_on_listed hts), known?, hts]
  rfl

/-! ## Catalogs of any kind -/

theorem load_lists {f : Folder} (h : (load f).on sh = (.ok ts, sh')) :
    sh'.catalog.listed? = some ts := by
  unfold load at h
  obtain ⟨there, sh₁, -, h⟩ := Act.ok_of_on_bind h
  cases there with
  | false => cases h
  | true =>
    obtain ⟨-, sh₂, -, h⟩ := Act.ok_of_on_bind h
    obtain ⟨names, sh₃, -, h⟩ := Act.ok_of_on_bind h
    obtain ⟨⟨f', ts'⟩, sh₄, -, h⟩ := Act.ok_of_on_bind h
    obtain ⟨-, sh₅, -, h⟩ := Act.ok_of_on_bind h
    cases h
    rfl

/-- A catalog whose tweaks were looked at lists them. -/
theorem tweaks_lists (h : tweaks.on sh = (.ok ts, sh')) : sh'.catalog.listed? = some ts := by
  unfold tweaks at h
  rw [Act.on_bind, Act.on_view] at h
  dsimp only at h
  split at h
  · next ts' hc => cases h; rw [hc]; rfl
  · next f hc =>
    split at h
    · next ts' hl => cases h; rw [hc]; exact hl
    · exact load_lists h

theorem find?_stays (tweakId : String) (sh : Shelf μ) :
    sh.catalog.Stays ((find? tweakId).on sh).2.catalog := by
  intro h
  rw [find?_on_listed h]

/-- **Every answer is what the catalog knows** from then on. -/
theorem find?_answers {t? : Option Tweak} (h : (find? tweakId).on sh = (.ok t?, sh')) :
    sh'.catalog.listed? ≠ none ∧ t? = sh'.catalog.known? tweakId := by
  obtain ⟨ts, sh₁, hts, h⟩ := Act.ok_of_on_bind h
  cases h
  have hl := tweaks_lists hts
  exact ⟨hl ▸ nofun, by rw [known?, hl]; rfl⟩

end Catalog

/-! ## Nothing is done to the machine -/

/-- The machine of a host, and the writes on record. -/
def Host.deeds (h : Host μ) : μ × List Write := (h.machine, h.writes)

namespace Act.Keeps

/-- An action on a part keeps what the part keeps for the whole. -/
theorem lift {T γ δ : Type} {p : Part S T} {f : S → γ} {g : T → δ} {a : Act T α}
    (hp : ∀ s t, g t = g (p.get s) → f (p.set t s) = f s) (h : Keeps g a) :
    Keeps f (p.lift a) := fun s => hp s _ (h (p.get s))

theorem loop {γ : Type} {f : σ → γ} {body : α → Act σ PUnit} (h : ∀ x, Keeps f (body x)) :
    ∀ xs : List α, Keeps f (forIn xs PUnit.unit fun x _ => do
      body x
      Pure.pure (ForInStep.yield PUnit.unit)) :=
  Along.loop (Q := fun s t => f t = f s) (fun _ => rfl) (fun h₁ h₂ => h₂.trans h₁) h

theorem report (m : Message) : Keeps Host.deeds (Host.report m : Call μ Unit) := fun _ => rfl

theorem say (level : Level) (speaker text : String) :
    Keeps Host.deeds (Host.say level speaker text : Call μ Unit) := report _

theorem onDisk (a : Act Disk α) : Keeps Host.deeds (Host.onDisk a : Call μ α) := fun _ => rfl

theorem readTweak (source : String) (d : Datum) :
    Keeps Host.deeds (Catalog.readTweak source d : Call μ Tweak) :=
  bind (loop (fun _ => say _ _ _) _) fun _ => result _

theorem readTweaks (source : String) : ∀ ds : List Datum,
    Keeps Host.deeds (Catalog.readTweaks source ds : Call μ (List Tweak))
  | [] => pure _
  | d :: ds => by
    unfold Catalog.readTweaks
    split
    · exact bind (say _ _ _) fun _ => readTweaks source ds
    · exact bind (readTweak source d) fun _ => bind (readTweaks source ds) fun _ => pure _

theorem readFrom (p : Path) : Keeps Host.deeds (Catalog.readFrom p : Call μ (List Tweak)) := by
  refine bind (onDisk _) fun d => ?_
  split <;> exact readTweaks _ _

theorem addNew (file : String) (known : List Tweak) : ∀ ts : List Tweak,
    Keeps Host.deeds (Catalog.addNew file known ts : Call μ (List Tweak))
  | [] => pure _
  | t :: ts => by
    unfold Catalog.addNew
    split
    · exact bind (say _ _ _) fun _ => addNew file known ts
    · exact addNew file _ ts

/-- What is done to the host of a shelf. -/
theorem onHost {a : Call μ α} (h : Keeps Host.deeds a) :
    Keeps (fun sh : Shelf μ => sh.host.deeds) (Shelf.hostPart.lift a) :=
  lift (fun _ _ h => h) h

theorem remember (f : Catalog.Folder) :
    Keeps (fun sh : Shelf μ => sh.host.deeds) (Catalog.remember f) := fun _ => rfl

theorem loadFiles (folder : Catalog.Folder) (names : List String) (ts : List Tweak) :
    Keeps (fun sh : Shelf μ => sh.host.deeds) (Catalog.loadFiles folder names ts) := by
  induction names generalizing folder ts with
  | nil => exact pure _
  | cons name names ih =>
    refine bind (onHost ((readFrom _).rescue _)) fun r => ?_
    cases r with
    | ok found => exact bind (onHost (addNew _ _ _)) fun _ => ih _ _
    | error e => exact bind (onHost (say _ _ _)) fun _ => bind (remember _) fun _ => ih _ _

theorem load (folder : Catalog.Folder) :
    Keeps (fun sh : Shelf μ => sh.host.deeds) (Catalog.load folder) := by
  refine bind (onHost (onDisk _)) fun there => ?_
  split
  · exact fun _ => rfl
  · refine bind (remember _) fun _ => bind (onHost (onDisk _)) fun _ => ?_
    exact bind (loadFiles _ _ _) fun _ => bind (onHost (say _ _ _)) fun _ =>
      bind (remember _) fun _ => pure _

theorem tweaks : Keeps (fun sh : Shelf μ => sh.host.deeds) Catalog.tweaks := by
  refine bind (view _) fun c => ?_
  cases c with
  | memory ts => exact pure _
  | folder f =>
    dsimp only
    split
    · exact pure _
    · exact load f

theorem find? (tweakId : String) :
    Keeps (fun sh : Shelf μ => sh.host.deeds) (Catalog.find? tweakId) :=
  bind tweaks fun _ => pure _

end Act.Keeps

/-! ## The tweaks of changes -/

namespace Desk

/-- Nothing but looking up leads from one desk to the other. -/
structure Reads (d d' : Desk μ) : Prop where
  board : d'.board = d.board
  catalog : d.shelf.catalog.Stays d'.shelf.catalog
  deeds : d'.shelf.host.deeds = d.shelf.host.deeds

variable {d d' : Desk μ} {ts : List Tweak}

theorem Reads.refl (d : Desk μ) : Reads d d := ⟨rfl, .refl _, rfl⟩

theorem Reads.trans {d'' : Desk μ} (h : Reads d d') (h' : Reads d' d'') : Reads d d'' :=
  ⟨h'.board.trans h.board, h.catalog.trans h'.catalog, h'.deeds.trans h.deeds⟩

theorem find?_reads (tweakId : String) :
    (onShelf (Catalog.find? tweakId) : Act (Desk μ) (Option Tweak)).Along Reads := fun d =>
  ⟨rfl, Catalog.find?_stays tweakId d.shelf, Act.Keeps.find? tweakId d.shelf⟩

theorem say_reads (level : Level) (speaker text : String) :
    (onHost (Host.say level speaker text) : Act (Desk μ) Unit).Along Reads :=
  fun _ => ⟨rfl, .refl _, rfl⟩

theorem tweaksOf_reads : ∀ cs : List Change, (tweaksOf cs : Act (Desk μ) (List Tweak)).Along Reads
  | [] => Reads.refl
  | c :: cs => by
    refine Act.Along.bind (Q := Reads) Reads.trans (find?_reads c.tweakId) fun t? => ?_
    cases t? with
    | none =>
      exact Act.Along.bind (Q := Reads) Reads.trans (say_reads _ _ _) fun _ => tweaksOf_reads cs
    | some t =>
      exact Act.Along.bind (Q := Reads) Reads.trans (tweaksOf_reads cs) fun _ => Reads.refl

theorem catalog_of_tweaksOf {cs : List Change} {r : Except Failure (List Tweak)}
    (hd : d.shelf.catalog.listed? ≠ none) (h : (tweaksOf cs).on d = (r, d')) :
    d'.shelf.catalog = d.shelf.catalog := by
  have hreads := (tweaksOf_reads cs d).catalog
  rw [h] at hreads
  exact hreads hd

/-- **The tweaks of changes** are those that the catalog knows from then on. -/
theorem tweaksOf_answers : ∀ {cs : List Change} {d : Desk μ} {ts : List Tweak},
    (tweaksOf cs).on d = (.ok ts, d') →
      (cs ≠ [] → d'.shelf.catalog.listed? ≠ none) ∧
        ts = cs.filterMap fun c => d'.shelf.catalog.known? c.tweakId
  | [], d, ts, h => by
    cases h
    exact ⟨fun h => absurd rfl h, rfl⟩
  | c :: cs, d, ts, h => by
    unfold tweaksOf at h
    obtain ⟨t?, d₁, hfind, h⟩ := Act.ok_of_on_bind h
    obtain ⟨sh, hshelf, hd⟩ := Part.ok_of_on_lift hfind
    subst hd
    obtain ⟨hl, ht⟩ := Catalog.find?_answers hshelf
    rw [List.filterMap_cons]
    cases t? with
    | none =>
      obtain ⟨_, d₂, hsay, h⟩ := Act.ok_of_on_bind h
      cases hsay
      have hsame : d'.shelf.catalog = sh.catalog := catalog_of_tweaksOf hl h
      rw [hsame, ← ht]
      exact ⟨fun _ => hl, hsame ▸ (tweaksOf_answers h).2⟩
    | some t =>
      obtain ⟨ts', d₂, hrest, h⟩ := Act.ok_of_on_bind h
      cases h
      have hsame : d'.shelf.catalog = sh.catalog := catalog_of_tweaksOf hl hrest
      have hts := (tweaksOf_answers hrest).2
      rw [hsame] at hts ⊢
      rw [← ht, hts]
      exact ⟨fun _ => hl, rfl⟩

end Desk
end TweakEngine
