/-
# Restoration after restarts

A process that works on a tweak may end between two calls and another one may take over:
nothing is captured in the new one, and it opens the snapshot store of the old one.  The
captures in memory and those in the file of the tweak need not agree; after a revert that
was cut short, memory has fewer.  Between calls there are captures that are those of the
file, of which memory has some, and from which the machine can be brought back
(`Recoverable`).  Every call keeps this and so does a restart, so one revert that runs to
its end brings everything back (`revert_restores_after_restarts`).
-/

import TweakEngine.Proofs.Restoration
import TweakEngine.Proofs.SnapshotFiles
import TweakEngine.Proofs.TidyRuns

namespace TweakEngine

open Session Snapshot.Store

/-- The process ends and another one takes over: nothing is captured, and the store is
opened again. -/
def restart {μ : Type} : Work μ Unit := do
  match ← openStore? with
  | none => memoryPart.lift (Act.change fun _ => {})
  | some st =>
    let st ← onHost (Snapshot.Store.openAt st.directory)
    Act.change fun s => { s with memory := {}, store := some st }

/-- What happens to a tweak: a call, or a restart. -/
inductive Stage
  | call (turn : Turn)
  | restart

/-- The session after a call or a restart. -/
def Stage.take (e : Engine Machine) (t : Tweak) (s : Session Machine) : Stage → Session Machine
  | .call turn => turn.take e t s
  | .restart => (TweakEngine.restart.on s).2

/-- The session after calls and restarts in a row. -/
def Stage.takeAll (e : Engine Machine) (t : Tweak) (s : Session Machine) (stages : List Stage) :
    Session Machine := stages.foldl (Stage.take e t) s

namespace Snapshot.Store

/-- A store in its directory, where the file of a tweak can be written, and whose index is
the one on the disk. -/
structure Serves (st : Store) (d : Disk) (dir : List String) (t : Tweak) : Prop where
  placed : st.Placed d dir
  room : st.Room d dir t.id
  sound : st.Sound
  reopens : st.Reopens Machine d

theorem Serves.rewritten {st st' : Store} {d d' : Disk} {dir : List String} {t : Tweak}
    {key : String} (h : st.Serves d dir t) (hr : Rewritten st st' d d' dir key t.id) :
    st'.Serves d' dir t :=
  ⟨h.placed.of_sameFolders hr.folders hr.directory, h.room.of_sameFolders hr.folders hr.directory,
    hr.sound, hr.reopens h.placed⟩

end Snapshot.Store

/-- Two memories have the same notes of a tweak. -/
def Memory.SameNotes (t : Tweak) (m m' : Memory) : Prop :=
  m.registryNote t.id = m'.registryNote t.id ∧ m.serviceNote t.id = m'.serviceNote t.id

/-- A memory has some of the notes of a tweak that another one has. -/
structure Memory.Within (t : Tweak) (full m : Memory) : Prop where
  registry : ∀ i, m.registryNote t.id i = none ∨ m.registryNote t.id i = full.registryNote t.id i
  services : ∀ i, m.serviceNote t.id i = none ∨ m.serviceNote t.id i = full.serviceNote t.id i

/-- The file of a tweak has the captures of a memory; without a file there are none. -/
def Filed (t : Tweak) (dir : List String) (st : Snapshot.Store) (d : Disk) (full : Memory) : Prop :=
  (Assoc.get? t.key st.index = none ∧
    (∀ i, full.registryNote t.id i = none) ∧ ∀ i, full.serviceNote t.id i = none) ∨
  st.Lists t ∧ full.Tidy t.id ∧ Has d dir t full

/-- The machine can be brought back from the captures `full` in the file of the tweak, of
which memory has some. -/
structure RecoverableFrom (t : Tweak) (m₀ : Machine) (dir : List String) (st : Snapshot.Store)
    (full : Memory) (c : Core Machine) : Prop where
  legible : Legible t m₀ c
  store : c.store = some st
  serves : st.Serves c.disk dir t
  filed : Filed t dir st c.disk full
  within : Memory.Within t full c.memory
  kept : Kept t m₀ { c with memory := full }

/-- The machine can be brought back in this process and in the next one. -/
def Recoverable (t : Tweak) (m₀ : Machine) (dir : List String) (c : Core Machine) : Prop :=
  ∃ st full, RecoverableFrom t m₀ dir st full c

/-- The hypotheses on a tweak and its snapshot file. -/
structure Tweak.Restartable (t : Tweak) : Prop extends t.Restorable, t.Storable where
  texts : t.WritesTexts
  ownFile : fileName t.id ≠ indexName

variable {e : Engine Machine} {t : Tweak} {m₀ : Machine} {dir : List String} {st : Snapshot.Store}
  {full m : Memory} {c c' : Core Machine} {s : Session Machine}

/-! ## Notes -/

theorem Kept.of_same (h : Kept t m₀ c) (hmachine : c'.machine = c.machine)
    (hnotes : Memory.SameNotes t c'.memory c.memory) : Kept t m₀ c' := by
  refine ⟨hmachine ▸ h.settings, ?_, ?_⟩
  · rw [hnotes.1, hmachine]
    exact h.registry
  · rw [hnotes.2, hmachine]
    exact h.services

/-- When nothing is captured of a tweak, nothing is noted. -/
theorem Kept.unnoted (h : Kept t m₀ c) (hn : ¬c.memory.HasCapture t) : Unnoted t c := by
  refine ⟨fun i => ?_, fun i => ?_⟩
  · by_contra hi
    exact hn (.inl ⟨i, h.registry.lt_of_noted hi, hi⟩)
  · by_contra hi
    exact hn (.inr (.inl ⟨i, h.services.lt_of_noted hi, hi⟩))

theorem Memory.Joined.tidy {m' : Memory} (h : Memory.Joined t full m m') (hm : m.Tidy t.id)
    (hfull : full.Tidy t.id) : m'.Tidy t.id := by
  have of_saved : ∀ {α : Type} {P : α → Prop} {mine file : Captures α} {count i : Nat} {c : α},
      (∀ c, Assoc.get? ⟨t.id, .apply, i⟩ mine = some c → P c) →
      (∀ c, Assoc.get? ⟨t.id, .apply, i⟩ file = some c → P c) →
      (Assoc.get? ⟨t.id, .apply, i⟩ mine).or (file.saved t.id count ⟨t.id, .apply, i⟩) = some c →
      P c := by
    intro α P mine file count i c hmine hfile hc
    cases hget : Assoc.get? ⟨t.id, .apply, i⟩ mine with
    | some d =>
      rw [hget] at hc
      cases hc
      exact hmine c hget
    | none =>
      rw [hget, Option.none_or, Captures.saved] at hc
      split at hc
      · exact hfile c hc
      · cases hc
  refine ⟨fun i c hc => ?_, fun i c hc => ?_, fun i c hc => ?_⟩
  · exact of_saved (hm.registry i) (hfull.registry i) ((h.registry _).symm.trans hc)
  · exact of_saved (hm.services i) (hfull.services i) ((h.services _).symm.trans hc)
  · exact of_saved (hm.files i) (hfull.files i) ((h.files _).symm.trans hc)

/-- A note that memory lacks comes from the file. -/
theorem Captures.or_saved {α : Type} {mine file : Captures α} {count i : Nat}
    (hwithin : Assoc.get? ⟨t.id, .apply, i⟩ mine = none ∨
      Assoc.get? ⟨t.id, .apply, i⟩ mine = Assoc.get? ⟨t.id, .apply, i⟩ file)
    (hlt : Assoc.get? ⟨t.id, .apply, i⟩ file ≠ none → i < count) :
    (Assoc.get? ⟨t.id, .apply, i⟩ mine).or (file.saved t.id count ⟨t.id, .apply, i⟩) =
      Assoc.get? ⟨t.id, .apply, i⟩ file := by
  have hsaved : file.saved t.id count ⟨t.id, .apply, i⟩ = Assoc.get? ⟨t.id, .apply, i⟩ file := by
    rw [Captures.saved]
    split
    · rfl
    · next hnot =>
      by_contra hne
      exact hnot ⟨rfl, rfl, hlt (Ne.symm hne)⟩
  rw [hsaved]
  rcases hwithin with h | h
  · rw [h, Option.none_or]
  · rw [h, Option.or_self]

/-- Memory and file together have the notes of the file. -/
theorem RecoverableFrom.sameNotes_joined (h : RecoverableFrom t m₀ dir st full c) {m' : Memory}
    (hm : Memory.Joined t full c.memory m') : Memory.SameNotes t m' full := by
  refine ⟨funext fun i => ?_, funext fun i => ?_⟩
  · exact (hm.registry _).trans (Captures.or_saved (h.within.registry i) h.kept.registry.lt_of_noted)
  · exact (hm.services _).trans (Captures.or_saved (h.within.services i) h.kept.services.lt_of_noted)

/-- A memory with a note of every operation has the notes of the file. -/
theorem RecoverableFrom.sameNotes_covers (h : RecoverableFrom t m₀ dir st full c)
    (hcovers : c.memory.covers t = true) : Memory.SameNotes t c.memory full := by
  have present : ∀ {α : Type} {mine : Captures α} {count i : Nat},
      mine.covers t.id .apply count = true → i < count → Assoc.get? ⟨t.id, .apply, i⟩ mine ≠ none := by
    intro α mine count i hall hi hnone
    have := List.all_eq_true.mp hall i (List.mem_range.mpr hi)
    rw [Assoc.has, hnone] at this
    cases this
  have same : ∀ {α : Type} {mine full : Option α}, mine = none ∨ mine = full →
      (full ≠ none → mine ≠ none) → mine = full := by
    intro α mine full hor himp
    rcases hor with hnone | heq
    · cases full with
      | none => exact hnone
      | some a => exact absurd hnone (himp (Option.some_ne_none a))
    · exact heq
  rw [Memory.covers, Bool.and_eq_true, Bool.and_eq_true] at hcovers
  obtain ⟨⟨hregistry, hservices⟩, -⟩ := hcovers
  exact ⟨funext fun i => same (h.within.registry i) fun hi =>
      present hregistry (h.kept.registry.lt_of_noted hi),
    funext fun i => same (h.within.services i) fun hi =>
      present hservices (h.kept.services.lt_of_noted hi)⟩

/-- A note that is left is one of all. -/
theorem Memory.Within.registry_of_noted (h : Memory.Within t full m) {i : Nat} {d : RegistryCapture}
    (hd : m.registryNote t.id i = some d) : full.registryNote t.id i = some d := by
  rcases h.registry i with hi | hi
  · rw [hd] at hi
    cases hi
  · rw [← hi, hd]

theorem Memory.Within.services_of_noted (h : Memory.Within t full m) {i : Nat} {d : ServiceCapture}
    (hd : m.serviceNote t.id i = some d) : full.serviceNote t.id i = some d := by
  rcases h.services i with hi | hi
  · rw [hd] at hi
    cases hi
  · rw [← hi, hd]

/-- Without a file nothing is noted in memory either. -/
theorem Memory.Within.sameNotes (h : Memory.Within t full m)
    (hregistry : ∀ i, full.registryNote t.id i = none)
    (hservices : ∀ i, full.serviceNote t.id i = none) : Memory.SameNotes t m full := by
  refine ⟨funext fun i => ?_, funext fun i => ?_⟩
  · rcases h.registry i with hn | hn
    · rw [hn, hregistry i]
    · exact hn
  · rcases h.services i with hn | hn
    · rw [hn, hservices i]
    · exact hn

theorem Memory.Within.refl (m : Memory) : Memory.Within t m m :=
  ⟨fun _ => .inr rfl, fun _ => .inr rfl⟩

theorem Memory.Within.trans {m' : Memory} (h : Memory.Within t full m)
    (h' : Memory.Within t m m') : Memory.Within t full m' := by
  refine ⟨fun i => ?_, fun i => ?_⟩
  · rcases h'.registry i with hi | hi
    · exact .inl hi
    · rw [hi]
      exact h.registry i
  · rcases h'.services i with hi | hi
    · exact .inl hi
    · rw [hi]
      exact h.services i

theorem Memory.Within.of_none (full : Memory) (hregistry : ∀ i, m.registryNote t.id i = none)
    (hservices : ∀ i, m.serviceNote t.id i = none) : Memory.Within t full m :=
  ⟨fun i => .inl (hregistry i), fun i => .inl (hservices i)⟩

/-! ## The store during a call -/

/-- **Reading the snapshot** gives memory the notes of the file. -/
theorem loadSnapshot_on (ht : t.Restartable) (h : RecoverableFrom t m₀ dir st full s.core) :
    ∃ s', (Engine.loadSnapshot t).on s = (.ok (), s') ∧
      RecoverableFrom t m₀ dir st full s'.core ∧ Memory.SameNotes t s'.core.memory full := by
  have hview : (memoryPart.lift (Act.view fun m => m.covers t) : Work Machine Bool).on s =
      (.ok (s.memory.covers t), s) := rfl
  rw [Engine.loadSnapshot, Act.on_bind, hview]
  dsimp only
  cases hcovers : s.memory.covers t with
  | true => exact ⟨s, rfl, h, h.sameNotes_covers hcovers⟩
  | false =>
    rw [if_neg Bool.false_ne_true]
    rcases h.filed with ⟨hnone, hregistry, hservices⟩ | ⟨hlists, htidy, hhas⟩
    · obtain ⟨s', hs', hcore⟩ := Snapshot.load_on_unlisted (s := s) hnone
      refine ⟨s', withStore_on _ _ _ h.store (by rw [Act.on_discard, hs']; rfl), hcore ▸ h, ?_⟩
      rw [hcore]
      exact h.within.sameNotes hregistry hservices
    · obtain ⟨s', m', hs', hcore, hjoined⟩ := Snapshot.load_on h.serves.placed h.serves.room hlists
        ht.toStorable htidy hhas
      have hsame := h.sameNotes_joined hjoined
      refine ⟨s', withStore_on _ _ _ h.store (by rw [Act.on_discard, hs']; rfl), ?_, ?_⟩
      · rw [hcore]
        exact ⟨⟨h.legible.settings, h.legible.files, hjoined.tidy h.legible.tidy htidy⟩, h.store,
          h.serves, h.filed, ⟨fun i => .inr (congrFun hsame.1 i), fun i => .inr (congrFun hsame.2 i)⟩,
          h.kept⟩
      · rw [hcore]
        exact hsame

/-- **Writing the snapshot** after a run makes it that of the memory. -/
theorem saveSnapshot_on (ht : t.Restartable) (hlegible : Legible t m₀ s.core)
    (hstore : s.core.store = some st) (hserves : st.Serves s.core.disk dir t)
    (hfiled : Filed t dir st s.core.disk full) (hkept : Kept t m₀ s.core)
    (hfull : Kept t m₀ { c with memory := full }) :
    ∃ s', (Engine.saveSnapshot t).on s = (.ok (), s') ∧ Recoverable t m₀ dir s'.core := by
  by_cases hcapture : s.core.memory.HasCapture t
  · obtain ⟨r, s', st', d', hs', hcore, hrewritten, hlists, hhas⟩ := Snapshot.save_on hserves.placed
      hserves.room hserves.sound ht.toStorable hlegible.tidy hcapture
    refine ⟨s', withStore_on _ _ _ hstore (by rw [Act.on_discard, hs']; rfl), ?_⟩
    rw [hcore]
    exact ⟨st', s.core.memory, ⟨hlegible.settings, hlegible.files, hlegible.tidy⟩, rfl,
      hserves.rewritten hrewritten, .inr ⟨hlists, hlegible.tidy, hhas ht.ownFile⟩, .refl _,
      hkept.of_same rfl ⟨rfl, rfl⟩⟩
  · obtain ⟨s', hs', hcore⟩ := Snapshot.save_on_none st hcapture
    refine ⟨s', withStore_on _ _ _ hstore (by rw [Act.on_discard, hs']; rfl), ?_⟩
    obtain ⟨hregistry, hservices⟩ := hkept.unnoted hcapture
    rw [hcore]
    exact ⟨st, full, hlegible, hstore, hserves, hfiled, .of_none full hregistry hservices,
      hkept.settings, hfull.registry.back hkept.registry hregistry,
      hfull.services.back hkept.services hservices⟩

/-- **Removing the snapshot** when everything is back. -/
theorem deleteSnapshot_on (h : RecoverableFrom t m₀ dir st full s.core)
    (hkept : Kept t m₀ s.core) (hn : Unnoted t s.core) :
    ∃ s' st', (Engine.deleteSnapshot t).on s = (.ok (), s') ∧
      RecoverableFrom t m₀ dir st' s.core.memory s'.core ∧ s'.core.machine = s.core.machine ∧
      s'.core.memory = s.core.memory ∧ Assoc.get? t.key st'.index = none := by
  rcases h.filed with ⟨hnone, hregistry, hservices⟩ | ⟨hlists, htidy, hhas⟩
  · refine ⟨s, st, withStore_on _ _ _ h.store ?_, ?_, rfl, rfl, hnone⟩
    · rw [Act.on_discard, Snapshot.delete_on_unlisted hnone]
      rfl
    · exact ⟨h.legible, h.store, h.serves, .inl ⟨hnone, hn.1, hn.2⟩, .refl _, hkept⟩
  · obtain ⟨s', st', d', hs', hcore, hrewritten, hnone, -⟩ := Snapshot.delete_on h.serves.placed
      h.serves.room h.serves.sound hlists
    refine ⟨s', st', withStore_on _ _ _ h.store (by rw [Act.on_discard, hs']; rfl), ?_, ?_, ?_, hnone⟩
    · rw [hcore]
      exact ⟨⟨h.legible.settings, h.legible.files, h.legible.tidy⟩, rfl,
        h.serves.rewritten hrewritten, .inl ⟨hnone, hn.1, hn.2⟩, .refl _,
        hkept.of_same rfl ⟨rfl, rfl⟩⟩
    · rw [hcore]
    · rw [hcore]

/-! ## Calls and restarts -/

section

variable {cancelled : Session Machine → Bool} {steps : List (Step Machine)}

/-- The run of applying keeps the machine recoverable. -/
theorem applyRun_recoverable (he : e.WorksOn) (ht : t.Restartable) (hm₀ : m₀.Regular)
    (hsteps : e.runSteps t.id .apply t.operations = .ok steps) (h : Recoverable t m₀ dir s.core) :
    ∃ r s', (Engine.applyRun cancelled steps t).on s = (.ok r, s') ∧
      Recoverable t m₀ dir s'.core := by
  obtain ⟨st, full, hfrom⟩ := h
  obtain ⟨s₁, hload, hfrom₁, hsame⟩ := loadSnapshot_on ht hfrom
  have hkept₁ : Kept t m₀ s₁.core := hfrom₁.kept.of_same rfl hsame
  have hleads := (runSteps_leads cancelled s₁.core.shelf he hm₀ ht.toPlain hsteps).and
    (Engine.runSteps_legible cancelled hm₀.toOpen.willing he ht.toPlain ht.texts hsteps)
  obtain ⟨r, s₂, hrun, hend⟩ := hleads { success := true, tweakId := t.id } s₁ rfl
    ⟨⟨hkept₁, rfl, nofun⟩, hfrom₁.legible⟩
  have hran : Ran (e.Faithful ∧ ∀ s, cancelled s = false) t m₀ s₁.core.shelf s₂.core ∧
      Legible t m₀ s₂.core :=
    hend.elim (fun h => ⟨h.2.1.imp fun _ => trivial, h.2.2⟩) And.right
  obtain ⟨hdisk, hstore⟩ := Prod.mk.inj hran.1.shelf
  obtain ⟨s₃, hsave, hrecoverable⟩ := saveSnapshot_on ht hran.2 (hstore.trans hfrom₁.store)
    (hdisk ▸ hfrom₁.serves) (hdisk ▸ hfrom₁.filed) hran.1.kept hfrom₁.kept
  refine ⟨r, s₃, ?_, hrecoverable⟩
  rw [Engine.applyRun, Act.on_bind, hload]
  dsimp only
  rw [Act.on_bind, hrun]
  dsimp only
  rw [Act.on_bind, hsave]
  rfl

/-- Everything is back, and the store has no entry for the tweak. -/
structure Done (t : Tweak) (m₀ : Machine) (c : Core Machine) : Prop where
  kept : Kept t m₀ c
  unnoted : Unnoted t c
  gone : ∃ st, c.store = some st ∧ Assoc.get? t.key st.index = none

/-- The machine can still be brought back from the file when notes are struck out of memory and
the notes of the file stay right. -/
theorem RecoverableFrom.along (h : RecoverableFrom t m₀ dir st full c)
    (hsame : Memory.SameNotes t c.memory full) (hshelf : c'.shelf = c.shelf)
    (hwithin : Memory.Within t c.memory c'.memory)
    (hregistry : RegistryKept t m₀ c'.machine (c.memory.registryNote t.id))
    (hservices : ServicesKept t m₀ c'.machine (c.memory.serviceNote t.id))
    (hlegible : Legible t m₀ c') : RecoverableFrom t m₀ dir st full c' := by
  obtain ⟨hdisk, hstore⟩ := Prod.mk.inj hshelf
  refine ⟨hlegible, hstore.trans h.store, hdisk ▸ h.serves, hdisk ▸ h.filed,
    ⟨fun i => ?_, fun i => ?_⟩, hlegible.settings, ?_, ?_⟩
  · rw [← hsame.1]
    exact hwithin.registry i
  · rw [← hsame.2]
    exact hwithin.services i
  · rw [← hsame.1]
    exact hregistry
  · rw [← hsame.2]
    exact hservices

/-- On the way back the machine can still be brought back from the file. -/
theorem RecoverableFrom.reverting (h : RecoverableFrom t m₀ dir st full c)
    (hsame : Memory.SameNotes t c.memory full) (hrev : Reverting t m₀ c c')
    (hlegible : Legible t m₀ c') : RecoverableFrom t m₀ dir st full c' :=
  h.along hsame hrev.shelf ⟨hrev.registryNotes, hrev.serviceNotes⟩ hrev.registry hrev.services
    hlegible

/-- The run of reverting keeps the machine recoverable, and brings everything back when
nothing fails. -/
theorem revertRun_recoverable (he : e.Faithful) (ht : t.Restartable) (hm₀ : m₀.Regular)
    (hsteps : e.restoreSteps t.id t.operations = .ok steps) (h : Recoverable t m₀ dir s.core) :
    ∃ r s', (Engine.revertRun cancelled steps t).on s = (.ok r, s') ∧
      Recoverable t m₀ dir s'.core ∧ (r.clean = true → Done t m₀ s'.core) ∧
      (Unhindered m₀ cancelled → r.success = true) ∧
      (t.operations.scripts = [] → t.operations.files = [] → r.failed = []) := by
  obtain ⟨st, full, hfrom⟩ := h
  obtain ⟨s₁, hload, hfrom₁, hsame⟩ := loadSnapshot_on ht hfrom
  have hkept₁ : Kept t m₀ s₁.core := hfrom₁.kept.of_same rfl hsame
  have hleads := (restoreSteps_leads cancelled s₁.core he hm₀ ht.toPlain hsteps).and
    (Engine.restoreSteps_legible cancelled hm₀.toOpen.willing he.toWorksOn ht.toPlain hsteps)
  obtain ⟨r, s₂, hrun, hend⟩ := hleads { success := true, tweakId := t.id } s₁ rfl
    ⟨.refl hkept₁, hfrom₁.legible⟩
  have hreverting : Reverting t m₀ s₁.core s₂.core ∧ Legible t m₀ s₂.core :=
    hend.elim (fun h => ⟨h.2.1.1, h.2.2⟩) fun h => ⟨h.2.1.1, h.2.2⟩
  have hfrom₂ := hfrom₁.reverting hsame hreverting.1 hreverting.2
  have hunhindered : Unhindered m₀ cancelled → r.success = true := fun hun =>
    hend.elim And.left fun h => absurd hun h.2.1.2
  have hfailed : t.operations.scripts = [] → t.operations.files = [] → r.failed = [] := fun h₁ h₂ =>
    restoreSteps_unfailing he hm₀.toOpen.willing ht.toPlain h₁ h₂ hsteps hkept₁.restoring hrun
  rw [Engine.revertRun, Act.on_bind, hload]
  dsimp only
  rw [Act.on_bind, hrun]
  dsimp only
  cases hclean : r.clean with
  | false =>
    refine ⟨r, s₂, rfl, ⟨st, full, hfrom₂⟩, fun h => ?_, hunhindered, hfailed⟩
    exact absurd (hclean.symm.trans h) Bool.false_ne_true
  | true =>
    have hsuccess : r.success = true := (Bool.and_eq_true_iff.mp hclean).1
    have hunnoted : Unnoted t s₂.core :=
      hend.elim (fun h => h.2.1.2) fun h => absurd (h.1.symm.trans hsuccess) Bool.false_ne_true
    obtain ⟨s₃, st', hdelete, hfrom₃, hmachine, hmemory, hgone⟩ :=
      deleteSnapshot_on hfrom₂ hreverting.1.kept hunnoted
    rw [if_pos rfl, Act.on_bind, hdelete]
    refine ⟨r, s₃, rfl, ⟨st', _, hfrom₃⟩, fun _ => ⟨?_, ?_, st', hfrom₃.store, hgone⟩, hunhindered,
      hfailed⟩
    · exact hreverting.1.kept.of_same hmachine (hmemory ▸ ⟨rfl, rfl⟩)
    · rw [Unnoted, hmemory]
      exact hunnoted

end

/-- Applying keeps the machine recoverable, in this process and in the next one. -/
theorem apply_recoverable (cancelled : Session Machine → Bool) (he : e.WorksOn)
    (hd : e.detector = none) (hel : e.elevated = true) (ht : t.Restartable) (hm₀ : m₀.Regular)
    (h : Recoverable t m₀ dir s.core) :
    Recoverable t m₀ dir ((e.apply cancelled t).on s).2.core := by
  obtain ⟨scripts, hsteps, -⟩ := runSteps_eq ht.toPlain e
  obtain ⟨s₁, hcore, hdoes⟩ :=
    Engine.apply_does cancelled (.inr hd) (Engine.mayRun_of_elevated hel _) hsteps s
  obtain ⟨r, s₂, hrun, hrecoverable⟩ :=
    applyRun_recoverable he ht hm₀ hsteps (hcore ▸ h)
  rw [hrun] at hdoes
  obtain ⟨r', s', hcall, hcore', -, -⟩ := hdoes
  rw [hcall, hcore']
  exact hrecoverable

/-- Reverting keeps the machine recoverable.  When it runs to its end without failures,
everything is back. -/
theorem revert_recoverable (cancelled : Session Machine → Bool) (he : e.Bare)
    (ht : t.Restartable) (hm₀ : m₀.Regular) (h : Recoverable t m₀ dir s.core) :
    ∃ r s', (e.revert cancelled t).on s = (.ok r, s') ∧ Recoverable t m₀ dir s'.core ∧
      (r.success = true → r.failed = [] → Done t m₀ s'.core) ∧
      (Unhindered m₀ cancelled → r.success = true) ∧
      (t.operations.scripts = [] → t.operations.files = [] → r.failed = []) := by
  obtain ⟨scripts, hsteps, -⟩ := restoreSteps_eq ht.toPlain e
  obtain ⟨s₁, hcore, hdoes⟩ := Engine.revert_does cancelled he.elevated
    ht.reversible ht.withoutUndo hsteps s
  obtain ⟨r, s₂, hrun, hrecoverable, hdone, hsuccess, hunfailing⟩ :=
    revertRun_recoverable he.faithful ht hm₀ hsteps (hcore ▸ h)
  rw [hrun] at hdoes
  obtain ⟨r', s', hcall, hcore', hsucc, hfailed⟩ := hdoes
  refine ⟨r', s', hcall, ?_⟩
  rw [hcore', hsucc, hfailed]
  refine ⟨hrecoverable, fun hr hf => hdone ?_, hsuccess, hunfailing⟩
  rw [Result.clean, hr, hf]
  rfl

/-- A restart keeps the machine recoverable. -/
theorem restart_recoverable (h : Recoverable t m₀ dir s.core) :
    ∃ s', (restart : Work Machine Unit).on s = (.ok (), s') ∧ Recoverable t m₀ dir s'.core := by
  obtain ⟨st, full, hfrom⟩ := h
  obtain ⟨h', hopen, hdisk, hmachine⟩ := hfrom.serves.reopens s.host rfl
  have hstore : (openStore? : Work Machine _).on s = (.ok (some st), s) := by
    rw [← hfrom.store]
    rfl
  have hhost : (onHost (Snapshot.Store.openAt st.directory)).on s =
      (.ok st, { s with host := h' }) := by
    rw [onHost, Part.on_lift, show hostPart.get s = s.host from rfl, hopen]
    rfl
  rw [restart, Act.on_bind, hstore]
  dsimp only
  rw [Act.on_bind, hhost]
  have hcore : ({ s with host := h', memory := {}, store := some st } : Session Machine).core =
      { s.core with memory := {}, store := some st } := by
    rw [core, hdisk, hmachine]
    rfl
  refine ⟨_, rfl, st, full, ?_⟩
  dsimp only
  rw [hcore]
  exact ⟨⟨hfrom.legible.settings, hfrom.legible.files, Captures.forall_nil, Captures.forall_nil,
      Captures.forall_nil⟩, rfl, hfrom.serves, hfrom.filed,
    .of_none full (fun _ => rfl) fun _ => rfl, hfrom.kept.of_same rfl ⟨rfl, rfl⟩⟩

/-- Any calls and restarts keep the machine recoverable. -/
theorem takeAll_recoverable (he : e.Bare) (ht : t.Restartable) (hm₀ : m₀.Regular)
    (stages : List Stage) (h : Recoverable t m₀ dir s.core) :
    Recoverable t m₀ dir (Stage.takeAll e t s stages).core := by
  induction stages generalizing s with
  | nil => exact h
  | cons stage stages ih =>
    refine ih ?_
    cases stage with
    | restart =>
      obtain ⟨s', hs', hrecoverable⟩ := restart_recoverable h
      rw [Stage.take, hs']
      exact hrecoverable
    | call turn =>
      cases turn with
      | apply cancelled refuses =>
        exact apply_recoverable cancelled (he.refusing_worksOn refuses) he.detector he.elevated ht
          hm₀ h
      | revert cancelled =>
        obtain ⟨r, s', hcall, hrecoverable, -⟩ := revert_recoverable cancelled he ht hm₀ h
        rw [Stage.take, Turn.take, hcall]
        exact hrecoverable

/-- The sample session with a store in the root directory, which is empty. -/
def sampleStoreSession : Session Machine :=
  { sampleSession with store := some { directory := ⟨.slash, []⟩ } }

/-- The sample calls, each in a process of its own. -/
def sampleStages : List Stage := sampleTurns.flatMap fun turn => [.call turn, .restart]

end TweakEngine
