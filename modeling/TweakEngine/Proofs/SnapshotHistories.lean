/-
# Histories of a snapshot store

A history of a store is a list of uses: captures of a tweak are saved or loaded, a snapshot
is deleted, or the store is opened again.  `lastSaved` is what loading a tweak should give
after a history, and `Independent` says that it does, for tweaks whose keys differ.

A snapshot file is named after the letters, digits, hyphens and underscores of an
identifier, at most eighty of them, so different keys can have one file, the file can be
that of the index, and its name can be too long in bytes.  These three are all that can go
wrong: the tweaks are independent exactly when their files are `Separate`
(`independent_iff_separate`).
-/

import TweakEngine.Proofs.SnapshotFiles
import Mathlib.Data.List.Nodup

namespace TweakEngine

open Session Snapshot.Store

instance (m : Memory) (t : Tweak) : Decidable (m.HasCapture t) :=
  inferInstanceAs (Decidable (_ ∨ _ ∨ _))

/-- Something can be captured of a tweak. -/
def Tweak.Capturable (t : Tweak) : Prop :=
  t.operations.registry ≠ [] ∨ t.operations.services ≠ [] ∨ t.operations.files ≠ []

theorem Memory.HasCapture.capturable {m : Memory} {t : Tweak} (h : m.HasCapture t) :
    t.Capturable := by
  have nonempty : ∀ {ω : Type} {ops : List ω} {i : Nat}, i < ops.length → ops ≠ [] :=
    fun hi => List.ne_nil_of_length_pos (Nat.lt_of_le_of_lt (Nat.zero_le _) hi)
  rcases h with ⟨i, hi, -⟩ | ⟨i, hi, -⟩ | ⟨i, hi, -⟩
  · exact .inl (nonempty hi)
  · exact .inr (.inl (nonempty hi))
  · exact .inr (.inr (nonempty hi))

/-- The first operation of a tweak can hold a capture. -/
theorem Tweak.Capturable.exists_capture {t : Tweak} (h : t.Capturable) :
    ∃ m : Memory, m.Tidy t.id ∧ m.HasCapture t := by
  have single : ∀ {α : Type} {a b : α} {i : Nat},
      Assoc.get? (⟨t.id, .apply, i⟩ : Slot) [(⟨t.id, .apply, 0⟩, a)] = some b → b = a := by
    intro α a b i hb
    rw [Assoc.get?] at hb
    split at hb
    · exact (Option.some.inj hb).symm
    · cases hb
  have first : ∀ {α : Type} (a : α),
      Assoc.get? (⟨t.id, .apply, 0⟩ : Slot) [(⟨t.id, .apply, 0⟩, a)] ≠ none := fun a => by
    rw [Assoc.get?, if_pos rfl]
    exact Option.some_ne_none a
  rcases h with h | h | h
  · refine ⟨{ registry := [(⟨t.id, .apply, 0⟩, ⟨false, false, none⟩)] },
      ⟨fun i c hc => ?_, Captures.forall_nil, Captures.forall_nil⟩, .inl ⟨0, List.length_pos_of_ne_nil h, first _⟩⟩
    rw [single hc]
    exact fun _ => rfl
  · refine ⟨{ services := [(⟨t.id, .apply, 0⟩, ⟨.manual, some .running⟩)] },
      ⟨Captures.forall_nil, fun i c hc => ?_, Captures.forall_nil⟩, .inr (.inl ⟨0, List.length_pos_of_ne_nil h, first _⟩)⟩
    rw [single hc]
    rfl
  · refine ⟨{ files := [(⟨t.id, .apply, 0⟩, ⟨false, .null⟩)] },
      ⟨Captures.forall_nil, Captures.forall_nil, fun i c hc => ?_⟩, .inr (.inr ⟨0, List.length_pos_of_ne_nil h, first _⟩)⟩
    rw [single hc]
    exact .inl rfl

namespace Snapshot

/-- A use of a store.  Saving and loading find the given captures in memory. -/
inductive Use
  | save (t : Tweak) (held : Memory)
  | load (t : Tweak) (held : Memory)
  | delete (t : Tweak)
  | reopen

variable {μ : Type}

namespace Use

/-- The session after a use of a store. -/
def on (st : Store) (s : Session μ) : Use → Session μ
  | save t held => ((Snapshot.save st t).on { s with memory := held }).2
  | load t held => ((Snapshot.load st t).on { s with memory := held }).2
  | delete t => ((Snapshot.delete st t.id).on s).2
  | reopen => ((onHost (openAt st.directory) >>= putStore : Work μ Unit).on s).2

/-- The session after a use of its store. -/
def take (s : Session μ) (u : Use) : Session μ :=
  match s.store with
  | none => s
  | some st => u.on st s

/-- The session after a history. -/
def takeAll (s : Session μ) (history : List Use) : Session μ := history.foldl take s

/-- A use of one of the tweaks; what is saved has the form of captures. -/
def About (ts : List Tweak) : Use → Prop
  | save t held => t ∈ ts ∧ held.Tidy t.id
  | load t _ | delete t => t ∈ ts
  | reopen => True

/-- What is in the store of a tweak after a use. -/
def leaves (t : Tweak) (before : Option Memory) : Use → Option Memory
  | save t' held => if t'.key = t.key ∧ held.HasCapture t' then some held else before
  | delete t' => if t'.key = t.key then none else before
  | load .. | reopen => before

end Use

/-- The last captures of a tweak that were saved and not deleted after that. -/
def lastSaved (t : Tweak) (history : List Use) : Option Memory := history.foldl (Use.leaves t) none

/-- Loading a tweak without captures gives exactly the given ones and tells so, or changes
nothing when there are none. -/
def Loads (s : Session μ) (t : Tweak) (saved? : Option Memory) : Prop :=
  ∃ st, s.store = some st ∧ match saved? with
    | some saved => ∃ s' m, (load st t).on { s with memory := {} } = (.ok true, s') ∧
        s'.core = { s.core with memory := m } ∧ Memory.Joined t saved {} m
    | none => ∃ s', (load st t).on { s with memory := {} } = (.ok false, s') ∧
        s'.core = { s.core with memory := {} }

/-- After every history, loading a tweak gives what was saved of it last. -/
def Independent (s : Session μ) (ts : List Tweak) : Prop :=
  ∀ history : List Use, (∀ u ∈ history, u.About ts) →
    ∀ t ∈ ts, Loads (Use.takeAll s history) t (lastSaved t history)

/-- The snapshot files can be written, none of them is the index, and different keys have
different files. -/
structure Separate (st : Store) (d : Disk) (ts : List Tweak) : Prop where
  writable : ∀ t ∈ ts, t.Capturable → ∃ loc, d.locate (st.fileFor t.id) = .ok loc
  ownFile : ∀ t ∈ ts, t.Capturable → fileName t.id ≠ indexName
  apart : ∀ t ∈ ts, ∀ t' ∈ ts, t.Capturable → t'.Capturable → t.key ≠ t'.key →
    fileName t.id ≠ fileName t'.id

/-- A session with a store in an empty directory. -/
structure Fresh (s : Session μ) (st : Store) (dir : List String) : Prop where
  store : s.store = some st
  placed : st.Placed s.host.disk dir
  empty : ∀ name, s.host.disk.at? (dir ++ [name]) = none
  index : st.index = []

variable {s s₀ : Session μ} {st st₀ : Store} {d : Disk} {dir : List String} {ts : List Tweak}
  {t t' : Tweak} {saved? : Option Memory} {held : Memory} {u : Use}

/-! ## Independence of separate files -/

theorem Use.take_eq (h : s.store = some st) (u : Use) : u.take s = u.on st s := by rw [take, h]

/-- What the store has of a tweak. -/
def Records (st : Store) (d : Disk) (dir : List String) (t : Tweak) : Option Memory → Prop
  | some saved => saved.Tidy t.id ∧ saved.HasCapture t ∧ st.Lists t ∧ Has d dir t saved
  | none => Assoc.get? t.key st.index = none

/-- The store of a session in the directory where `st₀` began, with what it should have of
every tweak. -/
structure Consistent (st₀ : Store) (d₀ : Disk) (dir : List String) (ts : List Tweak)
    (last : Tweak → Option Memory) (st : Store) (s : Session μ) : Prop where
  store : s.store = some st
  directory : st.directory = st₀.directory
  folders : Disk.SameFolders d₀ s.host.disk
  placed : st.Placed s.host.disk dir
  sound : st.Sound
  reopens : st.Reopens μ s.host.disk
  records : ∀ t ∈ ts, Records st s.host.disk dir t (last t)

/-- The records of other tweaks stay. -/
theorem Records.rewritten {st' : Store} {d' : Disk} (h : Records st d dir t saved?)
    (hr : Rewritten st st' d d' dir t'.key t'.id) (hkey : t.key ≠ t'.key)
    (hfile : ∀ saved, saved? = some saved → fileName t.id ≠ fileName t'.id)
    (hown : ∀ saved, saved? = some saved → fileName t.id ≠ indexName) :
    Records st' d' dir t saved? := by
  cases saved? with
  | none => exact (hr.otherKeys _ hkey).trans h
  | some saved =>
    obtain ⟨htidy, hcapture, hlists, now, hbytes⟩ := h
    exact ⟨htidy, hcapture, hlists.rewritten hr hkey, now,
      (hr.otherFiles _ (hfile saved rfl) (hown saved rfl)).trans hbytes⟩

/-- A session without change of its files and its store stays consistent. -/
theorem Consistent.of_core {s' : Session μ} {last : Tweak → Option Memory}
    (h : Consistent st₀ d dir ts last st s) {m : Memory} (hcore : s'.core = { s.core with memory := m }) :
    Consistent st₀ d dir ts last st s' := by
  obtain ⟨-, hdisk, -, hstore⟩ := Core.mk.inj hcore
  have hd : s'.host.disk = s.host.disk := hdisk
  exact ⟨hstore.trans h.store, h.directory, hd ▸ h.folders, hd ▸ h.placed, h.sound, hd ▸ h.reopens,
    hd ▸ h.records⟩

/-- Tweaks with different keys and separate files, and the empty directory of a store. -/
structure Setting (st₀ : Store) (d₀ : Disk) (dir : List String) (ts : List Tweak) : Prop where
  placed : st₀.Placed d₀ dir
  empty : ∀ name, d₀.at? (dir ++ [name]) = none
  separate : Separate st₀ d₀ ts
  keys : (ts.map Tweak.key).Nodup
  storable : ∀ t ∈ ts, t.Storable

/-- The file of a tweak with captures can be written at any time. -/
theorem Consistent.room {last : Tweak → Option Memory} (h : Consistent st₀ d dir ts last st s)
    (hset : Setting st₀ d dir ts) (ht : t ∈ ts) (hc : t.Capturable) :
    st.Room s.host.disk dir t.id := by
  obtain ⟨loc, hloc⟩ := hset.separate.writable t ht hc
  have hat : loc = dir ++ [fileName t.id] :=
    Disk.locate_child (plain_fileName t.id) hset.placed.located hloc
  have hroom : st₀.Room d dir t.id := ⟨hat ▸ hloc, by rw [hset.empty]; exact nofun⟩
  exact hroom.of_sameFolders h.folders h.directory

/-- After the store has changed one entry. -/
theorem Consistent.rewritten {s' : Session μ} {st' : Store} {d' : Disk} {m : Memory}
    {last last' : Tweak → Option Memory} (h : Consistent st₀ d dir ts last st s)
    (hsep : Separate st₀ d ts)
    (hcore : s'.core = { s.core with disk := d', memory := m, store := some st' })
    (hr : Rewritten st st' s.host.disk d' dir t.key t.id) (ht : t ∈ ts) (hc : t.Capturable)
    (hthis : ∀ t' ∈ ts, t'.key = t.key → Records st' d' dir t' (last' t'))
    (hothers : ∀ t', t'.key ≠ t.key → last' t' = last t') :
    Consistent st₀ d dir ts last' st' s' := by
  obtain ⟨-, hdisk, -, hstore⟩ := Core.mk.inj hcore
  have hd : s'.host.disk = d' := hdisk
  refine ⟨hstore, hr.directory.trans h.directory, hd ▸ h.folders.trans hr.folders,
    hd ▸ h.placed.of_sameFolders hr.folders hr.directory, hr.sound, hd ▸ hr.reopens h.placed,
    fun t' ht' => ?_⟩
  rw [hd]
  by_cases hkey : t'.key = t.key
  · exact hthis t' ht' hkey
  · rw [hothers t' hkey]
    have hcap : ∀ saved, last t' = some saved → t'.Capturable := fun saved hsaved => by
      have hrecord := h.records t' ht'
      rw [hsaved] at hrecord
      exact hrecord.2.1.capturable
    exact (h.records t' ht').rewritten hr hkey
      (fun saved hsaved => hsep.apart t' ht' t ht (hcap saved hsaved) hc hkey)
      fun saved hsaved => hsep.ownFile t' ht' (hcap saved hsaved)

/-- Saving puts the captures in the place of the earlier ones, if there are any. -/
theorem Consistent.save {last : Tweak → Option Memory} (h : Consistent st₀ d dir ts last st s)
    (hset : Setting st₀ d dir ts) (ht : t ∈ ts) (hheld : held.Tidy t.id) :
    ∃ st', Consistent st₀ d dir ts (fun t' => (Use.save t held).leaves t' (last t')) st'
      ((Snapshot.save st t).on { s with memory := held }).2 := by
  have hcore₀ : ({ s with memory := held } : Session μ).core = { s.core with memory := held } := rfl
  by_cases hcapture : held.HasCapture t
  · obtain ⟨r, s', st', d', hs', hcore, hr, hlists, hhas⟩ :=
      Snapshot.save_on (s := { s with memory := held }) h.placed
        (h.room hset ht hcapture.capturable) h.sound (hset.storable t ht) hheld hcapture
    rw [hs']
    refine ⟨st', h.rewritten hset.separate hcore hr ht hcapture.capturable ?_ ?_⟩
    · intro t' ht' hkey
      obtain rfl := List.inj_on_of_nodup_map hset.keys ht' ht hkey
      simp only [Use.leaves, true_and, if_pos hcapture]
      exact ⟨hheld, hcapture, hlists, hhas (hset.separate.ownFile t' ht hcapture.capturable)⟩
    · intro t' hkey
      rw [Use.leaves, if_neg fun h => hkey h.1.symm]
  · obtain ⟨s', hs', hcore⟩ := Snapshot.save_on_none (s := { s with memory := held }) st hcapture
    rw [hs']
    simp only [Use.leaves, hcapture, and_false, if_false]
    exact ⟨st, h.of_core (hcore.trans hcore₀)⟩

/-- Loading changes nothing in the store. -/
theorem Consistent.load {last : Tweak → Option Memory} (h : Consistent st₀ d dir ts last st s)
    (hset : Setting st₀ d dir ts) (ht : t ∈ ts) (held : Memory) :
    Consistent st₀ d dir ts last st ((Snapshot.load st t).on { s with memory := held }).2 := by
  have hrecord := h.records t ht
  cases hlast : last t with
  | none =>
    rw [hlast] at hrecord
    obtain ⟨s', hs', hcore⟩ := Snapshot.load_on_unlisted (s := { s with memory := held }) hrecord
    rw [hs']
    exact h.of_core (m := held) hcore
  | some saved =>
    rw [hlast] at hrecord
    obtain ⟨htidy, hcapture, hlists, hhas⟩ := hrecord
    obtain ⟨s', m', hs', hcore, -⟩ := Snapshot.load_on (s := { s with memory := held }) h.placed
      (h.room hset ht hcapture.capturable) hlists (hset.storable t ht) htidy hhas
    rw [hs']
    exact h.of_core (m := m') hcore

/-- Deleting leaves nothing of a tweak. -/
theorem Consistent.delete {last : Tweak → Option Memory} (h : Consistent st₀ d dir ts last st s)
    (hset : Setting st₀ d dir ts) (ht : t ∈ ts) :
    ∃ st', Consistent st₀ d dir ts (fun t' => (Use.delete t).leaves t' (last t')) st'
      ((Snapshot.delete st t.id).on s).2 := by
  have hrecord := h.records t ht
  have hsame : ∀ t' ∈ ts, t'.key = t.key → t' = t := fun t' ht' hkey =>
    List.inj_on_of_nodup_map hset.keys ht' ht hkey
  cases hlast : last t with
  | none =>
    rw [hlast] at hrecord
    rw [Snapshot.delete_on_unlisted hrecord]
    refine ⟨st, { h with records := fun t' ht' => ?_ }⟩
    dsimp only [Use.leaves]
    split
    · next hkey =>
      rw [hsame t' ht' hkey.symm]
      exact hrecord
    · exact h.records t' ht'
  | some saved =>
    rw [hlast] at hrecord
    obtain ⟨-, hcapture, hlists, -⟩ := hrecord
    obtain ⟨s', st', d', hs', hcore, hr, hnone, -⟩ := Snapshot.delete_on h.placed
      (h.room hset ht hcapture.capturable) h.sound hlists
    rw [hs']
    refine ⟨st', h.rewritten (m := s.memory) hset.separate hcore hr ht hcapture.capturable ?_ ?_⟩
    · intro t' ht' hkey
      rw [hsame t' ht' hkey, Use.leaves, if_pos rfl]
      exact hnone
    · intro t' hkey
      rw [Use.leaves, if_neg (Ne.symm hkey)]

/-- Opening the store again changes nothing. -/
theorem Consistent.reopen {last : Tweak → Option Memory} (h : Consistent st₀ d dir ts last st s) :
    Consistent st₀ d dir ts last st
      ((onHost (openAt st.directory) >>= putStore : Work μ Unit).on s).2 := by
  obtain ⟨h', hopen, hdisk, hmachine⟩ := h.reopens s.host rfl
  have hhost : (onHost (openAt st.directory)).on s = (.ok st, { s with host := h' }) := by
    rw [onHost, Part.on_lift, show hostPart.get s = s.host from rfl, hopen]
    rfl
  rw [Act.on_bind, hhost]
  refine h.of_core (m := s.memory) ?_
  have hstore : s.store = some st := h.store
  have hcore : ({ s with host := h', store := some st } : Session μ).core = s.core := by
    rw [core, hdisk, hmachine, ← hstore]
    rfl
  exact hcore

/-- Every use of the store keeps it consistent. -/
theorem Consistent.take {last : Tweak → Option Memory} (h : Consistent st₀ d dir ts last st s)
    (hset : Setting st₀ d dir ts) (hu : u.About ts) :
    ∃ st', Consistent st₀ d dir ts (fun t => u.leaves t (last t)) st' (u.take s) := by
  rw [Use.take_eq h.store]
  cases u with
  | save t held => exact h.save hset hu.1 hu.2
  | load t held => exact ⟨st, h.load hset hu held⟩
  | delete t => exact h.delete hset hu
  | reopen => exact ⟨st, h.reopen⟩

/-- Every history keeps the store consistent. -/
theorem Consistent.takeAll {last : Tweak → Option Memory} {history : List Use}
    (h : Consistent st₀ d dir ts last st s) (hset : Setting st₀ d dir ts)
    (hu : ∀ u ∈ history, u.About ts) :
    ∃ st', Consistent st₀ d dir ts (fun t => history.foldl (Use.leaves t) (last t)) st'
      (Use.takeAll s history) := by
  induction history generalizing s st last with
  | nil => exact ⟨st, h⟩
  | cons u history ih =>
    obtain ⟨st₁, h₁⟩ := h.take hset (hu u List.mem_cons_self)
    exact ih h₁ fun u' hu' => hu u' (List.mem_cons_of_mem _ hu')

/-- Loading from a consistent store. -/
theorem Consistent.loads {last : Tweak → Option Memory} (h : Consistent st₀ d dir ts last st s)
    (hset : Setting st₀ d dir ts) (ht : t ∈ ts) : Loads s t (last t) := by
  refine ⟨st, h.store, ?_⟩
  have hrecord := h.records t ht
  revert hrecord
  rcases last t with _ | saved <;> intro hrecord
  · exact Snapshot.load_on_unlisted (s := { s with memory := {} }) hrecord
  · obtain ⟨htidy, hcapture, hlists, hhas⟩ := hrecord
    exact Snapshot.load_on (s := { s with memory := {} }) h.placed
      (h.room hset ht hcapture.capturable) hlists (hset.storable t ht) htidy hhas

/-- A fresh store is consistent. -/
theorem Fresh.consistent (hf : Fresh s st dir) (ts : List Tweak) :
    Consistent st s.host.disk dir ts (fun _ => none) st s where
  store := hf.store
  directory := rfl
  folders := .refl _
  placed := hf.placed
  sound := ⟨by rw [hf.index]; exact List.nodup_nil, by rw [hf.index]; exact nofun⟩
  reopens := openAt_missing hf.placed (hf.empty _) hf.index
  records := fun t _ => by
    rw [Records, hf.index]
    rfl

/-- **Separate files are independent.** -/
theorem Fresh.independent (hf : Fresh s st dir) (hkeys : (ts.map Tweak.key).Nodup)
    (hts : ∀ t ∈ ts, t.Storable) (hsep : Separate st s.host.disk ts) : Independent s ts := by
  have hset : Setting st s.host.disk dir ts := ⟨hf.placed, hf.empty, hsep, hkeys, hts⟩
  intro history hu t ht
  obtain ⟨st', h⟩ := (hf.consistent ts).takeAll hset hu
  exact h.loads hset ht

/-! ## What goes wrong otherwise -/

theorem Fresh.room (hf : Fresh s st dir) (h : ∃ loc, s.host.disk.locate (st.fileFor t.id) = .ok loc) :
    st.Room s.host.disk dir t.id := by
  obtain ⟨loc, hloc⟩ := h
  obtain rfl := Disk.locate_child (plain_fileName t.id) hf.placed.located hloc
  exact ⟨hloc, by rw [hf.empty]; exact nofun⟩

/-- A file that cannot be written is not there to be loaded. -/
theorem Independent.writable (h : Independent s ts) (hf : Fresh s st dir) (ht : t ∈ ts)
    (hc : t.Capturable) : ∃ loc, s.host.disk.locate (st.fileFor t.id) = .ok loc := by
  cases hloc : s.host.disk.locate (st.fileFor t.id) with
  | ok loc => exact ⟨loc, rfl⟩
  | error f =>
    exfalso
    obtain ⟨held, htidy, hcapture⟩ := hc.exists_capture
    obtain ⟨s₁, hs₁, hcore⟩ :=
      save_on_refused (s := { s with memory := held }) hloc htidy hcapture
    have hstore : s₁.store = some st := (congrArg Core.store hcore).trans hf.store
    have htake : Use.takeAll s [.save t held] = s₁ :=
      (Use.take_eq hf.store _).trans (congrArg Prod.snd hs₁)
    have hlast : lastSaved t [.save t held] = some held := if_pos ⟨rfl, hcapture⟩
    have hloads := h [.save t held] (by simpa [Use.About] using ⟨ht, htidy⟩) t ht
    rw [htake, hlast] at hloads
    obtain ⟨st', hst', s₂, m, hs₂, -⟩ := hloads
    cases hstore.symm.trans hst'
    have hunlisted : Assoc.get? t.key st.index = none := by rw [hf.index]; rfl
    obtain ⟨s₃, hs₃, -⟩ := load_on_unlisted (s := { s₁ with memory := {} }) hunlisted
    cases hs₂.symm.trans hs₃

/-- The store after saving captures. -/
theorem Use.save_take (hstore : s.store = some st) (hp : st.Placed s.host.disk dir)
    (hr : st.Room s.host.disk dir t.id) (hs : st.Sound) (ht : t.Storable) (htidy : held.Tidy t.id)
    (hcapture : held.HasCapture t) : ∃ st', ((Use.save t held).take s).store = some st' ∧
      Rewritten st st' s.host.disk ((Use.save t held).take s).host.disk dir t.key t.id ∧
      st'.Lists t := by
  obtain ⟨r, s', st', d', hs', hcore, hrewritten, hlists, -⟩ :=
    save_on (s := { s with memory := held }) hp hr hs ht htidy hcapture
  obtain ⟨-, hdisk, -, hstore'⟩ := Core.mk.inj hcore
  have htake : (Use.save t held).take s = s' :=
    (Use.take_eq hstore _).trans (congrArg Prod.snd hs')
  have hd : s'.host.disk = d' := hdisk
  rw [htake, hd]
  exact ⟨st', hstore', hrewritten, hlists⟩

/-- The store after deleting a snapshot. -/
theorem Use.delete_take (hstore : s.store = some st) (hp : st.Placed s.host.disk dir)
    (hr : st.Room s.host.disk dir t.id) (hs : st.Sound) (hlists : st.Lists t) :
    ∃ st', ((Use.delete t).take s).store = some st' ∧
      Rewritten st st' s.host.disk ((Use.delete t).take s).host.disk dir t.key t.id ∧
      (fileName t.id ≠ indexName →
        ((Use.delete t).take s).host.disk.at? (dir ++ [fileName t.id]) = none) := by
  obtain ⟨s', st', d', hs', hcore, hrewritten, -, hgone⟩ := delete_on hp hr hs hlists
  obtain ⟨-, hdisk, -, hstore'⟩ := Core.mk.inj hcore
  have htake : (Use.delete t).take s = s' := (Use.take_eq hstore _).trans (congrArg Prod.snd hs')
  have hd : s'.host.disk = d' := hdisk
  rw [htake, hd]
  exact ⟨st', hstore', hrewritten, hgone⟩

/-- Captures are not given back by a memory without any. -/
theorem not_hasCapture_of_joined (h : Memory.Joined t held {} {}) :
    ¬held.HasCapture t := by
  have absent : ∀ {α : Type} {c : Captures α} {count i : Nat}, i < count →
      none = (none : Option α).or (c.saved t.id count ⟨t.id, .apply, i⟩) →
      Assoc.get? ⟨t.id, .apply, i⟩ c = none := by
    intro α c count i hi hc
    rw [Option.none_or, Captures.saved, if_pos ⟨rfl, rfl, hi⟩] at hc
    exact hc.symm
  rintro (⟨i, hi, hne⟩ | ⟨i, hi, hne⟩ | ⟨i, hi, hne⟩)
  · exact hne (absent hi (h.registry _))
  · exact hne (absent hi (h.services _))
  · exact hne (absent hi (h.files _))

/-- The key of a tweak whose file is the index has an underscore. -/
theorem underscore_mem_key (h : fileName t.id = indexName) : '_' ∈ t.key.toList := by
  have hchars : '_' ∈ (fileName t.id).toList := by
    rw [h]
    decide
  have hid : '_' ∈ t.id.toList := by
    rw [fileName, String.toList_append, List.mem_append] at hchars
    rcases hchars with hchars | hchars
    · split at hchars
      · exact absurd hchars (by decide)
      · rw [String.toList_ofList] at hchars
        exact (List.mem_filter.mp (List.mem_of_mem_take hchars)).1
    · exact absurd hchars (by decide)
  rw [Tweak.key, Text.fold, String.toList_ofList]
  exact List.mem_flatMap.mpr ⟨'_', hid, by decide⟩

/-- A file that is the index holds no captures. -/
theorem Independent.ownFile (h : Independent s ts) (hf : Fresh s st dir) (ht : t ∈ ts)
    (hstorable : t.Storable) (hc : t.Capturable) : fileName t.id ≠ indexName := by
  intro hname
  obtain ⟨held, htidy, hcapture⟩ := hc.exists_capture
  have hroom := hf.room (h.writable hf ht hc)
  obtain ⟨st₁, hstore, hrewritten, hlists⟩ := Use.save_take hf.store hf.placed hroom
    (hf.consistent ts).sound hstorable htidy hcapture
  have hlast : lastSaved t [.save t held] = some held := if_pos ⟨rfl, hcapture⟩
  have hloads := h [.save t held] (by simpa [Use.About] using ⟨ht, htidy⟩) t ht
  rw [hlast] at hloads
  obtain ⟨st', hst', s₂, m, hs₂, hcore, hjoined⟩ := hloads
  cases hstore.symm.trans hst'
  have hnone : ∀ name ∈ ["registry", "services", "files"],
      Assoc.get? name (st₁.index.map fun e => (e.1, e.2.toDatum)) = none := by
    intro name hmem
    have hkey : name ≠ t.key := by
      rintro rfl
      have hunderscore := underscore_mem_key hname
      simp only [List.mem_cons, List.not_mem_nil, or_false] at hmem
      rcases hmem with hmem | hmem | hmem <;> rw [hmem] at hunderscore <;>
        exact absurd hunderscore (by decide)
    rw [Assoc.get?_map, hrewritten.otherKeys name hkey, hf.index]
    rfl
  obtain ⟨s₃, hs₃, hcore₃⟩ := load_on_empty
    (s := { (Use.save t held).take s with memory := {} })
    (hf.placed.of_sameFolders hrewritten.folders hrewritten.directory)
    (hroom.of_sameFolders hrewritten.folders hrewritten.directory) hlists
    hrewritten.sound.indexDatum (hname ▸ hrewritten.written) hnone
  cases hs₂.symm.trans hs₃
  obtain rfl : {} = m := congrArg Core.memory (hcore₃.symm.trans hcore)
  exact not_hasCapture_of_joined hjoined hcapture

/-- **Deleting the snapshot of a tweak takes away that of another one** in the same file. -/
theorem Independent.apart (h : Independent s ts) (hf : Fresh s st dir) (ht : t ∈ ts) (ht' : t' ∈ ts)
    (hstorable : t.Storable) (hstorable' : t'.Storable) (hc : t.Capturable) (hc' : t'.Capturable)
    (hkey : t.key ≠ t'.key) : fileName t.id ≠ fileName t'.id := by
  intro hname
  obtain ⟨held, htidy, hcapture⟩ := hc.exists_capture
  obtain ⟨held', htidy', hcapture'⟩ := hc'.exists_capture
  have hroom := hf.room (h.writable hf ht hc)
  have hroom' := hf.room (h.writable hf ht' hc')
  obtain ⟨st₁, hstore₁, hr₁, hlists₁⟩ := Use.save_take hf.store hf.placed hroom
    (hf.consistent ts).sound hstorable htidy hcapture
  have hplaced₁ := hf.placed.of_sameFolders hr₁.folders hr₁.directory
  obtain ⟨st₂, hstore₂, hr₂, hlists₂⟩ := Use.save_take hstore₁ hplaced₁
    (hroom'.of_sameFolders hr₁.folders hr₁.directory) hr₁.sound hstorable' htidy' hcapture'
  have hplaced₂ := hplaced₁.of_sameFolders hr₂.folders hr₂.directory
  have hfolders₂ := hr₁.folders.trans hr₂.folders
  have hdirectory₂ := hr₂.directory.trans hr₁.directory
  obtain ⟨st₃, hstore₃, hr₃, hgone⟩ := Use.delete_take hstore₂ hplaced₂
    (hroom'.of_sameFolders hfolders₂ hdirectory₂) hr₂.sound hlists₂
  have hlast : lastSaved t [.save t held, .save t' held', .delete t'] = some held := by
    simp [lastSaved, Use.leaves, hcapture, Ne.symm hkey]
  have hloads := h [.save t held, .save t' held', .delete t']
    (by simpa [Use.About] using ⟨⟨ht, htidy⟩, ⟨ht', htidy'⟩, ht'⟩) t ht
  rw [hlast] at hloads
  obtain ⟨st', hst', s₂, m, hs₂, -⟩ := hloads
  cases hstore₃.symm.trans hst'
  have hown : fileName t'.id ≠ indexName := h.ownFile hf ht' hstorable' hc'
  obtain ⟨s₃, hs₃, -⟩ := load_on_missing (t := t)
    (s := { (Use.delete t').take ((Use.save t' held').take ((Use.save t held).take s)) with
      memory := {} })
    (hplaced₂.of_sameFolders hr₃.folders hr₃.directory)
    (hroom.of_sameFolders (hfolders₂.trans hr₃.folders) (hr₃.directory.trans hdirectory₂))
    ((hlists₁.rewritten hr₂ hkey).rewritten hr₃ hkey) (hname ▸ hgone hown)
  cases hs₂.symm.trans hs₃

/-- **Independence of snapshots.**  From an empty directory, loading gives what was saved last
of each tweak after every history, exactly when every tweak of which something can be
captured has a file that can be written, that is not the index, and that no tweak with
another key shares. -/
theorem independent_iff_separate (hf : Fresh s st dir) (hkeys : (ts.map Tweak.key).Nodup)
    (hts : ∀ t ∈ ts, t.Storable) : Independent s ts ↔ Separate st s.host.disk ts := by
  constructor
  · intro h
    exact {
      writable := fun t ht hc => h.writable hf ht hc
      ownFile := fun t ht hc => h.ownFile hf ht (hts t ht) hc
      apart := fun t ht t' ht' hc hc' hkey =>
        h.apart hf ht ht' (hts t ht) (hts t' ht') hc hc' hkey }
  · exact hf.independent hkeys hts

/-- A tweak that makes a key. -/
def sampleNamed (id : String) : Tweak :=
  { id
    name := .text id
    operations :=
      { registry := [{ hive := .localMachine, keyPath := .text "Demo", action := .createKey }] } }

/-- A session with a store in the root directory, which is empty. -/
def sampleFresh : Session Unit :=
  { host := { machine := () }, store := some { directory := ⟨.slash, []⟩ } }

theorem sampleNamed_storable (id : String) : (sampleNamed id).Storable where
  name := ⟨_, rfl⟩
  count := Nat.lt_of_lt_of_le (by decide : 1 < 10 ^ 1)
    (Nat.pow_le_pow_right (by decide) (by decide))

theorem sampleFresh_fresh : Fresh sampleFresh { directory := ⟨.slash, []⟩ } [] where
  store := rfl
  placed := ⟨nofun, by decide, rfl, by decide, by decide⟩
  empty := fun _ => rfl
  index := rfl

/-- A dot is not part of a file name, so two tweaks with different keys share a file. -/
theorem samples_dependent : ([sampleNamed "a.b", sampleNamed "ab"].map Tweak.key).Nodup ∧
    ¬Independent sampleFresh [sampleNamed "a.b", sampleNamed "ab"] := by
  refine ⟨by decide, fun h => ?_⟩
  have hc : ∀ id, (sampleNamed id).Capturable := fun id => .inl (List.cons_ne_nil _ _)
  have hfirst : sampleNamed "a.b" ∈ [sampleNamed "a.b", sampleNamed "ab"] := by simp
  have hsecond : sampleNamed "ab" ∈ [sampleNamed "a.b", sampleNamed "ab"] := by simp
  exact h.apart sampleFresh_fresh hfirst hsecond (sampleNamed_storable _) (sampleNamed_storable _)
    (hc _) (hc _) (by decide) (by decide)

theorem samples_independent :
    Fresh sampleFresh { directory := ⟨.slash, []⟩ } [] ∧
      ([sampleNamed "a-b", sampleNamed "ab"].map Tweak.key).Nodup ∧
      (∀ t ∈ [sampleNamed "a-b", sampleNamed "ab"], t.Storable) ∧
      Independent sampleFresh [sampleNamed "a-b", sampleNamed "ab"] := by
  have hkeys : ([sampleNamed "a-b", sampleNamed "ab"].map Tweak.key).Nodup := by decide
  have hts : ∀ t ∈ [sampleNamed "a-b", sampleNamed "ab"], t.Storable := by
    simp only [List.forall_mem_cons, List.not_mem_nil, false_implies, implies_true, and_true]
    exact ⟨sampleNamed_storable _, sampleNamed_storable _⟩
  refine ⟨sampleFresh_fresh, hkeys, hts,
    (independent_iff_separate sampleFresh_fresh hkeys hts).mpr ⟨?_, ?_, ?_⟩⟩
  · simp only [List.forall_mem_cons, List.not_mem_nil, false_implies, implies_true, and_true]
    exact ⟨fun _ => ⟨["a-b.json"], by decide⟩, fun _ => ⟨["ab.json"], by decide⟩⟩
  · simp only [List.forall_mem_cons, List.not_mem_nil, false_implies, implies_true, and_true]
    exact ⟨fun _ => by decide, fun _ => by decide⟩
  · simp only [List.forall_mem_cons, List.not_mem_nil, false_implies, implies_true, and_true]
    exact ⟨⟨fun _ _ h => absurd rfl h, fun _ _ _ => by decide⟩, fun _ _ _ => by decide,
      fun _ _ h => absurd rfl h⟩

end Snapshot
end TweakEngine
