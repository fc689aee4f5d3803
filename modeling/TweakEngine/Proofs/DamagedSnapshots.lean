/-
# Damaged snapshot files

Whatever stands in the index and in the snapshot files, most of it is only said: a file that
cannot be opened or decoded, a text that is no JSON, captures that mean nothing.  Opening a
store fails exactly when the index is a JSON value other than an object, and a call fails
exactly when it comes to a snapshot whose path is no text or whose value does harm
(`Engine.damaged_files`).  Everything else that a call does with the store gives a result, since
what the session holds can be written (`Session.Writable`), and stays so.

A list in the place of the object ends both (`sample_lists`).
-/

import TweakEngine.Proofs.SaidFailures
import TweakEngine.Proofs.TweakCalls
import TweakEngine.Proofs.WritableCaptures

namespace TweakEngine

open Failure

namespace Snapshot

open Store

/-! ## What is read can be written -/

theorem fieldOf_plain {d default x : Datum} {key : String} (hd : Json.foreign? d = none)
    (hdefault : Json.foreign? default = none) (h : fieldOf d key default = .ok x) :
    Json.foreign? x = none := by
  cases d with
  | object fields =>
    cases h
    cases hget : Assoc.get? key fields with
    | none => exact hdefault
    | some y => exact Json.foreignField?_eq_none.mp hd (key, y) (Assoc.mem_of_get? hget)
  | _ => cases h

theorem part_plain {d : Datum} {name : String} {cs : List (String × Datum)}
    (hd : Json.foreign? d = none) (h : Store.part d name = .ok cs) :
    ∀ c ∈ cs, Json.foreign? c.2 = none := by
  obtain ⟨x, hx, h⟩ := ok_of_bind h
  have hplain := fieldOf_plain hd rfl hx
  cases x with
  | object fields => cases h; exact Json.foreignField?_eq_none.mp hplain
  | _ => cases h

theorem restoreFiles_writable {tweakId : String} {ops : List FileOperation} :
    ∀ {cs : List (String × Datum)}, (∀ c ∈ cs, Json.foreign? c.2 = none) →
      (restore tweakId ops (fun _ => fileCapture) cs).Preserves Captures.Writable
  | [], _ => fun _ => id
  | (key, d) :: cs, h => by
    have hrest : (restore tweakId ops (fun _ => fileCapture) cs).Preserves Captures.Writable :=
      restoreFiles_writable fun c hc => h c (List.mem_cons_of_mem _ hc)
    unfold restore
    split
    · exact hrest
    split
    · exact hrest
    refine Act.Preserves.bind_of (Q := fun x : FileCapture => Json.foreign? x.content = none)
      (fun _ => id) (fun c x c' hx => ?_) fun x hx =>
        Act.Preserves.bind (fun c hc => hc.keep hx _) fun _ => hrest
    obtain ⟨existed, -, hx⟩ := ok_of_bind (Prod.mk.inj hx).1
    obtain ⟨content, hcontent, hx⟩ := ok_of_bind hx
    cases hx
    exact fieldOf_plain (h _ List.mem_cons_self) rfl hcontent

/-- Reading captures from a value that can be written leaves notes that can be written. -/
theorem restoreAll_writable (t : Tweak) {d : Datum} (hd : Json.foreign? d = none) :
    (restoreAll t d).Preserves Memory.Writable := by
  refine Act.Preserves.bind (fun _ => id) fun registry => ?_
  refine Act.Preserves.bind (fun _ => id) fun _ => ?_
  refine Act.Preserves.bind (fun _ => id) fun services => ?_
  refine Act.Preserves.bind (fun _ => id) fun _ => ?_
  refine Act.Preserves.bind_of (Q := fun cs => ∀ c ∈ cs, Json.foreign? c.2 = none) (fun _ => id)
    (fun m cs m' hcs => part_plain hd (Prod.mk.inj hcs).1) fun cs hcs m hm => ?_
  exact restoreFiles_writable hcs m.files hm

/-- The index can be written: its file has a path that the platform takes, and its entries
have forms in JSON. -/
structure Store.Writable (st : Store) : Prop where
  named : st.indexFile.text.toList.contains (Char.ofNat 0) = false
  plain : ∀ e ∈ st.index, Json.foreign? e.2.toDatum = none

theorem Store.Writable.indexDatum {st : Store} (h : st.Writable) :
    Json.foreign? st.indexDatum = none := by
  refine Json.foreignField?_eq_none.mpr fun f hf => ?_
  obtain ⟨e, he, rfl⟩ := List.mem_map.mp hf
  exact h.plain e he

theorem Store.Writable.put {st : Store} (h : st.Writable) {e : Entry}
    (he : Json.foreign? e.toDatum = none) (key : String) :
    Store.Writable { st with index := Assoc.put key e st.index } :=
  ⟨h.named, fun x hx => (Assoc.mem_put hx).elim (fun hxe => hxe ▸ he) (h.plain x)⟩

theorem Store.Writable.erase {st : Store} (h : st.Writable) (key : String) :
    Store.Writable { st with index := Assoc.erase key st.index } :=
  ⟨h.named, fun x hx => h.plain x (List.mem_filter.mp hx).1⟩

/-- The captures of a tweak have a form in JSON. -/
theorem snapshotOf_plain (t : Tweak) {m : Memory} (hm : m.Writable) (now : Moment) :
    Json.foreign? (snapshotOf t m now).1 = none := by
  have hindexed : ∀ {α : Type} {form : α → Datum} {cs : List (Nat × α)},
      (∀ c ∈ cs, Json.foreign? (form c.2) = none) → Json.foreign? (indexedDatum form cs) = none := by
    intro α form cs h
    refine Json.foreignField?_eq_none.mpr fun f hf => ?_
    obtain ⟨c, hc, rfl⟩ := List.mem_map.mp hf
    exact h c hc
  refine Json.foreignField?_eq_none.mpr ?_
  simp only [List.forall_mem_cons]
  refine ⟨rfl, rfl, rfl, hindexed fun c _ => Json.foreign?_exact (registryDatum_exact _),
    hindexed fun c _ => Json.foreign?_exact (serviceDatum_exact _), hindexed fun c hc => ?_,
    List.forall_mem_nil _⟩
  have hcontent := hm _ c.2 (Captures.mem_indexed.mp hc).2
  exact Json.foreignField?_eq_none.mpr (by simpa [Json.foreign?] using hcontent)

end Snapshot

/-- What a session holds can be written. -/
structure Session.Writable {μ : Type} (s : Session μ) : Prop where
  notes : s.memory.Writable
  store : ∀ st, s.store = some st → st.Writable

/-- The parts of a tweak that calls put in words can be: its scripts are described, and its name
is written to the index. -/
structure Tweak.Presentable (t : Tweak) : Prop where
  name : Json.foreign? t.name = none
  scripts : ∀ op ∈ t.operations.scripts, ∃ d, op.describe = .ok d
  undo : ∀ ops, t.undo? = some ops → ∀ op ∈ ops.scripts, ∃ d, op.describe = .ok d

variable {μ : Type} {s s' : Session μ}

theorem Session.Writable.onward (hs : s.Writable) (h : s.Onward s') : s'.Writable :=
  ⟨h.writable hs.notes, fun st hst => hs.store st (h.store ▸ hst)⟩

theorem Session.Writable.of_core (hs : s.Writable) (h : s'.core = s.core) : s'.Writable := by
  obtain ⟨-, -, hmemory, hstore⟩ := Core.mk.inj h
  exact ⟨hmemory ▸ hs.notes, hstore ▸ hs.store⟩

namespace Engine

open Session

variable {e : Engine μ} {t : Tweak}

/-! ## The store during a call -/

section

variable {caught : Failure → Bool} {what tweakId : String}
  {action : Snapshot.Store → Work μ Unit}

/-- What became of the action on the store is said. -/
theorem saying_returns (what tweakId : String) (r : Except Failure Unit) (s : Session μ) :
    Act.Returns (match r with
      | .ok () => return
      | .error f => say .warning speaker
          ("Could not " ++ what ++ " snapshot for " ++ tweakId ++ ": " ++ f.message)) s := by
  cases r <;> exact ⟨_, _, rfl⟩

/-- Failures of the action on the store are only said when they are caught. -/
theorem withStore_returns : (withStore caught what tweakId action).Returns s ↔
    ∀ st, s.store = some st → (action st).FailsOnly caught s := by
  have hopen : (openStore? : Work μ _).on s = (.ok s.store, s) := rfl
  rw [withStore, Act.returns_after hopen]
  cases hstore : s.store with
  | none => exact iff_of_true ⟨_, _, rfl⟩ fun st hst => by cases hst
  | some st =>
    refine (Act.returns_before (saying_returns what tweakId)).trans (Act.rescue_returns.trans ?_)
    exact ⟨fun h st' hst => by cases hst; exact h, fun h => h st rfl⟩

/-- What the action on the store goes along, the whole goes along, too. -/
theorem along_withStore {Q : Session μ → Session μ → Prop} (hrefl : ∀ s, Q s s)
    (htrans : ∀ {s t u}, Q s t → Q t u → Q s u)
    (hsay : ∀ level speaker text, (say level speaker text : Work μ Unit).Along Q)
    (h : ∀ st, s.store = some st → (action st).Along Q) :
    Q s ((withStore caught what tweakId action).on s).2 := by
  have hopen : (openStore? : Work μ _).on s = (.ok s.store, s) := rfl
  rw [withStore, Act.on_bind_of_ok hopen]
  cases hstore : s.store with
  | none => exact hrefl s
  | some st =>
    refine Act.Along.bind (Q := Q) htrans ((h st hstore).rescue caught) (fun r => ?_) s
    cases r with
    | ok => exact hrefl
    | error f => exact hsay _ _ _

end

/-! ## Reading a snapshot -/

/-- The snapshot of a tweak does no harm when it has to be read: its path is a text, and so is
what its file holds, if it is JSON. -/
def Harmless (t : Tweak) (s : Session μ) : Prop :=
  s.memory.covers t = true ∨ ∀ st entry, s.store = some st →
    Assoc.get? t.key st.index = some entry → ∃ file, Path.ofDatum entry.filePath = .ok file ∧
      ∀ d, ((Disk.readJson file).on s.host.disk).1 = .ok d → Snapshot.Harmless t d

theorem failsOnly_onDisk {α : Type} {caught : Failure → Bool} {a : Act Disk α}
    (h : a.FailsOnly caught s.host.disk) : (onHost (Host.onDisk a)).FailsOnly caught s := h

/-- An action that only looks at the disk leaves the session as it is. -/
theorem onDisk_on {α : Type} {a : Act Disk α} {x : α} {s : Session μ}
    (h : a.on s.host.disk = (.ok x, s.host.disk)) :
    (onHost (Host.onDisk a)).on s = (.ok x, s) := by
  rw [Session.onHost, Part.on_lift, Host.onDisk, Part.on_lift, hostPart, Host.diskPart]
  dsimp only
  rw [h]

/-- Only what a session works on counts. -/
theorem harmless_of_core (h : s'.core = s.core) : Harmless t s' ↔ Harmless t s := by
  obtain ⟨-, hdisk, hmemory, hstore⟩ := Core.mk.inj h
  rw [Harmless, Harmless, hdisk, hmemory, hstore]

/-- Looking for a file. -/
theorem present_of_on {file : Path} {there : Bool}
    (h : (onHost (Host.onDisk (Disk.present file))).on s = (.ok there, s')) :
    s = s' ∧ ((Disk.present file).on s.host.disk).1 = .ok there :=
  ⟨(Prod.mk.inj h).2, (Prod.mk.inj h).1⟩

/-- A file that may be missing is read: what is not said comes of its value alone. -/
theorem failsOnly_reading {α : Type} {file : Path} {missing : Work μ α} {k : Datum → Work μ α}
    (hmissing : missing.FailsOnly Failure.isReadingFault s) :
    (do
      if !(← onHost (Host.onDisk (Disk.present file))) then missing
      else k (← onHost (Host.onDisk (Disk.readJson file)))).FailsOnly Failure.isReadingFault s ↔
    ∀ d, ((Disk.readJson file).on s.host.disk).1 = .ok d →
      (k d).FailsOnly Failure.isReadingFault s := by
  rcases hread : (Disk.readJson file).on s.host.disk with ⟨f | d, disk⟩
  · -- the file is missing, or what is wrong with it is said
    refine iff_of_true ?_ fun d hd => by cases hd
    have hfault := Disk.failsOnly_readJson file s.host.disk f (by rw [hread])
    refine .bind (failsOnly_onDisk (Disk.failsOnly_present (fun g hg => ?_) file _)) ?_
    · rw [Failure.isReadingFault, hg, Bool.true_or, Bool.true_or]
    · intro there s' hthere
      obtain ⟨rfl, -⟩ := present_of_on hthere
      cases there with
      | false => exact hmissing
      | true =>
        have hfailed : ((onHost (Host.onDisk (Disk.readJson file))).on s).1 = .error f :=
          congrArg Prod.fst hread
        exact (Act.failsOnly_bind_error hfailed).mpr (Failure.isReadingFault_of_writing hfault)
  · obtain rfl : s.host.disk = disk := by rw [← Disk.readJson_reads file s.host.disk, hread]
    rw [Act.failsOnly_after (onDisk_on (Disk.present_of_readJson (by rw [hread])))]
    simp only [Bool.not_true, Bool.false_eq_true, if_false]
    rw [Act.failsOnly_after (onDisk_on hread)]
    exact ⟨fun h d' hd' => by cases hd'; exact h, fun h => h d rfl⟩

/-- Nothing but the value decides whether reading captures from it does harm. -/
theorem failsOnly_restoreAll (t : Tweak) (d : Datum) :
    (memoryPart.lift (Snapshot.Store.restoreAll t d) : Work μ Unit).FailsOnly
      Failure.isReadingFault s ↔ Snapshot.Harmless t d := by
  have hsettled := (Snapshot.restoreAll_result t d s.memory {} rfl).1
  show (∀ f, ((Snapshot.Store.restoreAll t d).on s.memory).1 = .error f → _) ↔ _
  rw [hsettled]
  exact .rfl

/-- The failures of reading a snapshot that are not said. -/
theorem load_failsOnly (st : Snapshot.Store) :
    (Snapshot.load st t).FailsOnly Failure.isReadingFault s ↔ ∀ entry,
      Assoc.get? t.key st.index = some entry → ∃ file, Path.ofDatum entry.filePath = .ok file ∧
        ∀ d, ((Disk.readJson file).on s.host.disk).1 = .ok d → Snapshot.Harmless t d := by
  unfold Snapshot.load
  cases hget : Assoc.get? t.key st.index with
  | none => exact iff_of_true (Act.failsOnly_pure _ _) fun entry h => by cases h
  | some entry =>
    refine Iff.trans ?_ ⟨fun h e he => by cases he; exact h, fun h => h entry rfl⟩
    dsimp only
    cases hpath : Path.ofDatum entry.filePath with
    | error f =>
      have hmistyped : f.isReadingFault = false := by
        cases hd : entry.filePath <;> rw [hd] at hpath <;> cases hpath <;> rfl
      rw [Act.failsOnly_bind_error (f := f) rfl, hmistyped]
      refine iff_of_false Bool.false_ne_true ?_
      rintro ⟨file, hfile, -⟩
      cases hfile
    | ok file =>
      rw [Act.failsOnly_after (Act.on_result _ _)]
      refine Iff.trans (failsOnly_reading ?missing) ?_
      case missing => exact Act.failsOnly_pure _ _
      have hvalue : ∀ d, (memoryPart.lift (Snapshot.Store.restoreAll t d) >>= fun _ => do
          say .debug Snapshot.speaker ("Loaded snapshot for " ++ t.id)
          return true : Work μ Bool).FailsOnly Failure.isReadingFault s ↔ Snapshot.Harmless t d := by
        intro d
        refine (Act.failsOnly_before fun _ _ => ?_).trans (failsOnly_restoreAll t d)
        exact Act.failsOnly_pure _ _
      constructor
      · exact fun h => ⟨file, rfl, fun d hd => (hvalue d).mp (h d hd)⟩
      · rintro ⟨p, hp, h⟩ d hd
        cases hp
        exact (hvalue d).mpr (h d hd)

/-- **Reading a snapshot** gives a result exactly when the snapshot does no harm. -/
theorem loadSnapshot_returns : (loadSnapshot t).Returns s ↔ Harmless t s := by
  have hview : (memoryPart.lift (Act.view fun m => m.covers t) : Work μ Bool).on s =
      (.ok (s.memory.covers t), s) := rfl
  rw [loadSnapshot, Act.returns_after hview, Harmless]
  cases s.memory.covers t with
  | true => exact ⟨fun _ => .inl rfl, fun _ => ⟨_, _, rfl⟩⟩
  | false =>
    rw [if_neg Bool.false_ne_true, withStore_returns]
    simp only [Bool.false_eq_true, false_or]
    refine forall_congr' fun st => ⟨fun h entry hst => ?_, fun h hst => ?_⟩
    · exact (load_failsOnly st).mp (Act.failsOnly_discard.mp (h hst)) entry
    · exact Act.failsOnly_discard.mpr ((load_failsOnly st).mpr fun entry => h entry hst)

/-- Reading a snapshot leads onward: a file that can be read holds what can be written. -/
theorem loadSnapshot_onward (t : Tweak) : GoesOnward (loadSnapshot t : Work μ Unit) := by
  refine .bind (fun _ => ⟨rfl, id⟩) fun covered => ?_
  cases covered with
  | true => exact .pure _
  | false =>
    intro s
    refine along_withStore (Q := Session.Onward) .refl .trans GoesOnward.say fun st _ =>
      GoesOnward.discard ?_
    unfold Snapshot.load
    split
    · exact (GoesOnward.say _ _ _).bind fun _ => .pure _
    · refine (GoesOnward.result _).bind fun file => (GoesOnward.onHost _).bind fun there => ?_
      split
      · exact (GoesOnward.say _ _ _).bind fun _ => .pure _
      · refine GoesOnward.bind_of (P := fun d => Json.foreign? d = none) (.onHost _) ?_ fun d hd => ?_
        · exact fun s d s' h => Disk.readJson_plain (Prod.mk.inj h).1
        · exact GoesOnward.bind (fun s => ⟨rfl, Snapshot.restoreAll_writable t hd s.memory⟩) fun _ =>
            (GoesOnward.say _ _ _).bind fun _ => .pure _

/-! ## Writing and removing a snapshot -/

theorem preserves_onHost {α : Type} (a : Call μ α) :
    (onHost a : Work μ α).Preserves Session.Writable := fun _ hs => ⟨hs.notes, hs.store⟩

theorem preserves_putStore {st : Snapshot.Store} (hst : st.Writable) :
    (putStore st : Work μ Unit).Preserves Session.Writable :=
  fun _ hs => ⟨hs.notes, fun _ h => by cases h; exact hst⟩

theorem preserves_onward {α : Type} {a : Work μ α} (h : GoesOnward a) :
    a.Preserves Session.Writable := fun s hs => hs.onward (h s)

theorem preserves_withStore {caught : Failure → Bool} {what tweakId : String}
    {action : Snapshot.Store → Work μ Unit}
    (h : ∀ st : Snapshot.Store, st.Writable → (action st).Preserves Session.Writable) :
    (withStore caught what tweakId action).Preserves Session.Writable := fun _ hs =>
  along_withStore (Q := fun s s' => s.Writable → s'.Writable) (fun _ => id) (fun h₁ h₂ => h₂ ∘ h₁)
    (fun _ _ _ => preserves_onHost _) (fun st hst => h st (hs.store st hst)) hs

/-- The entry of a tweak's snapshot has a form in JSON when the name of the tweak does. -/
theorem entry_plain (hname : Json.foreign? t.name = none) (now file : String) (count : Int) :
    Json.foreign? (Snapshot.Entry.toDatum
      { tweakId := .text t.id, tweakName := t.name, timestamp := .text now, filePath := .text file
        operationCount := .int count }) = none := by
  refine Json.foreignField?_eq_none.mpr ?_
  simp only [List.forall_mem_cons]
  exact ⟨rfl, hname, rfl, rfl, rfl, List.forall_mem_nil _⟩

theorem saveSnapshot_writable (hname : Json.foreign? t.name = none) :
    (saveSnapshot t : Work μ Unit).Preserves Session.Writable := by
  refine preserves_withStore fun st hst s hs => ?_
  rw [Act.on_discard]
  have hsave : (Snapshot.save st t : Work μ _).Preserves Session.Writable := by
    unfold Snapshot.save
    refine .bind (preserves_onHost _) fun now => .bind (fun _ => id) fun (snapshot, count) => ?_
    dsimp only
    split
    · exact .bind (preserves_onHost _) fun _ _ => id
    · exact .bind (preserves_onHost _) fun _ =>
        .bind (preserves_putStore (hst.put (entry_plain hname _ _ _) _)) fun _ =>
          .bind (preserves_onHost _) fun _ => .bind (preserves_onHost _) fun _ _ => id
  exact hsave s hs

/-- **Writing a snapshot** always gives a result. -/
theorem saveSnapshot_returns (hs : s.Writable) (hname : Json.foreign? t.name = none) :
    (saveSnapshot t).Returns s := by
  have hsystem : ∀ f : Failure, f.isSystem = true → f.isWritingFault = true := fun f h => by
    rw [Failure.isWritingFault, h, Bool.true_or]
  refine withStore_returns.mpr fun st hst => Act.failsOnly_discard.mpr ?_
  have hwritable := hs.store st hst
  have hnow : (onHost Host.now : Work μ Moment).on s = (.ok s.host.clock, s) := rfl
  have hwrite : ∀ (s' : Session μ) (p : Path) {x : Datum}, Json.foreign? x = none →
      (onHost (Host.onDisk (Disk.writeJson p x))).FailsOnly Failure.isWritingFault s' :=
    fun s' p x hx => failsOnly_onDisk
      (Disk.failsOnly_writeJson hsystem (fun f => Disk.locate_fault) hx)
  unfold Snapshot.save
  rw [Act.failsOnly_after hnow, Act.failsOnly_after (Act.on_view _ _)]
  dsimp only
  split
  · exact Act.failsOnly_pure _ _
  · refine .bind (hwrite s _ (Snapshot.snapshotOf_plain t hs.notes _)) fun _ s' _ => ?_
    refine (Act.failsOnly_after (Act.on_change _ _)).mpr ?_
    refine .bind (hwrite _ _ (hwritable.put (entry_plain hname _ _ _) _).indexDatum) fun _ _ _ => ?_
    exact Act.failsOnly_pure _ _

theorem deleteSnapshot_writable (t : Tweak) :
    (deleteSnapshot t : Work μ Unit).Preserves Session.Writable := by
  refine preserves_withStore fun st hst s hs => ?_
  rw [Act.on_discard]
  have hdelete : (Snapshot.delete st t.id : Work μ _).Preserves Session.Writable := by
    unfold Snapshot.delete
    dsimp only
    split
    · exact fun _ => id
    · refine .bind (preserves_putStore (hst.erase _)) fun _ => .bind (fun _ => id) fun file => ?_
      refine .bind (preserves_onHost _) fun there => ?_
      split
      on_goal 1 => refine .bind (preserves_onHost _) fun _ => ?_
      all_goals
        exact .bind (preserves_onHost _) fun _ => .bind (preserves_onHost _) fun _ _ => id
  exact hdelete s hs

/-- The path of the tweak's snapshot is a text. -/
def PathIsText (t : Tweak) (s : Session μ) : Prop := ∀ st entry, s.store = some st →
  Assoc.get? t.key st.index = some entry → ∃ file, Path.ofDatum entry.filePath = .ok file

/-- **Removing a snapshot** gives a result when its path is a text. -/
theorem deleteSnapshot_returns (hs : s.Writable) (hpath : PathIsText t s) :
    (deleteSnapshot t).Returns s := by
  refine withStore_returns.mpr fun st hst => Act.failsOnly_discard.mpr ?_
  have hindex : ∀ s' : Session μ, (onHost (Snapshot.Store.saveIndex
      { st with index := Assoc.erase t.key st.index })).FailsOnly Failure.isSystem s' := fun s' =>
    failsOnly_onDisk (Disk.failsOnly_writeJson (fun _ => id)
      (fun _ => Catalog.isSystem_of_locate (hs.store st hst).named)
      ((hs.store st hst).erase _).indexDatum)
  unfold Snapshot.delete
  rw [show Text.fold t.id = t.key from rfl]
  dsimp only
  cases hget : Assoc.get? t.key st.index with
  | none => exact Act.failsOnly_pure _ _
  | some entry =>
    obtain ⟨file, hfile⟩ := hpath st entry hst hget
    refine (Act.failsOnly_after (Act.on_change _ _)).mpr ?_
    rw [hfile, Act.failsOnly_after (Act.on_result _ _)]
    refine .bind (failsOnly_onDisk (Disk.failsOnly_present (fun _ => id) _ _)) ?_
    intro there s' hthere
    obtain ⟨rfl, hlooked⟩ := present_of_on hthere
    cases there with
    | false => exact .bind (hindex _) fun _ s _ => Act.failsOnly_pure _ s
    | true =>
      obtain ⟨loc, hloc⟩ := Disk.locate_of_present hlooked
      have hlocated : ∀ f, Disk.locate _ file = .error f → f.isSystem = true := fun f hf =>
        by cases hf.symm.trans hloc
      exact .bind (failsOnly_onDisk (Disk.failsOnly_unlink (fun _ => id) hlocated)) fun _ s' _ =>
        .bind (hindex s') fun _ s _ => Act.failsOnly_pure _ s

/-! ## Calls -/

theorem finish_returns (action : String) (start : Moment) (details : String) (r : Result) :
    (finish action t start details r : Work μ Result).Returns s := ⟨_, _, rfl⟩

theorem finish_writable (action : String) (start : Moment) (details : String) (r : Result) :
    (finish action t start details r : Work μ Result).Preserves Session.Writable :=
  .bind (preserves_onHost _) fun _ => .bind (preserves_onHost _) fun _ _ => id

theorem refuse_returns (action : String) (start : Moment) (f : Failure) :
    (refuse action t start f : Work μ Result).Returns s :=
  (Act.returns_after rfl).mpr (finish_returns _ _ _ _)

theorem refuse_writable (action : String) (start : Moment) (f : Failure) :
    (refuse action t start f : Work μ Result).Preserves Session.Writable :=
  .bind (preserves_onHost _) fun _ => finish_writable _ _ _ _

/-- Looking whether a tweak is applied always gives an answer. -/
theorem alreadyApplied_returns (e : Engine μ) (t : Tweak) (h : Host μ) :
    (e.alreadyApplied t).Returns h := by
  unfold alreadyApplied
  split
  · next detector _ _ =>
    have hevaluate : (detector.evaluate t).Returns h := by
      unfold Detector.evaluate
      rw [Act.returns_after (Act.on_attempt _ _)]
      split <;> exact ⟨_, _, rfl⟩
    obtain ⟨status, h', hstatus⟩ := hevaluate
    rw [Act.returns_after hstatus]
    split <;> exact ⟨_, _, rfl⟩
  · exact ⟨_, _, rfl⟩

section

variable {ops : OperationSet}

theorem runSteps_ok (e : Engine μ) (tweakId : String) (side : Side)
    (h : ∀ op ∈ ops.scripts, ∃ d, op.describe = .ok d) :
    ∃ steps, e.runSteps tweakId side ops = .ok steps := by
  obtain ⟨scripts, hscripts⟩ := mapM_ok ops.scripts
    (f := fun op => do return (⟨← op.describe, e.runScript op⟩ : Step μ)) fun op hop => by
      obtain ⟨d, hd⟩ := h op hop
      exact ⟨_, by rw [hd]; rfl⟩
  exact ⟨_, by rw [runSteps, hscripts, ok_bind]; rfl⟩

theorem restoreSteps_ok (e : Engine μ) (tweakId : String)
    (h : ∀ op ∈ ops.scripts, ∃ d, op.describe = .ok d) :
    ∃ steps, e.restoreSteps tweakId ops = .ok steps := by
  obtain ⟨scripts, hscripts⟩ := mapM_ok ops.scripts.reverse
    (f := fun op => do return (⟨undoing "Revert" (← op.describe), e.revertScript op⟩ : Step μ))
    fun op hop => by
      obtain ⟨d, hd⟩ := h op (List.mem_reverse.mp hop)
      exact ⟨_, by rw [hd]; rfl⟩
  exact ⟨_, by rw [restoreSteps, hscripts, ok_bind]; rfl⟩

end

theorem goesOnward_execute {steps : List (Step μ)} (cancelled : Session μ → Bool)
    (h : ∀ st ∈ steps, GoesOnward st.run) (r : Result) : GoesOnward (execute cancelled steps r) := by
  intro s
  obtain ⟨r', s', hrun, honward⟩ := execute_onward cancelled h r s
  rw [hrun]
  exact honward

/-- **Applying** gives a result exactly when it does not come to a snapshot that does harm. -/
theorem apply_returns (cancelled : Session μ → Bool) (he : e.mutator.ReadsPlain)
    (ht : t.Presentable) (hs : s.Writable) : (e.apply cancelled t).Returns s ↔
      ∀ s₁, (onHost (e.alreadyApplied t)).on s = (.ok false, s₁) →
        e.mayRun t.operations = true → Harmless t s₁ := by
  have hnow : (onHost Host.now : Work μ Moment).on s = (.ok s.host.clock, s) := rfl
  obtain ⟨applied, h', hanswer⟩ := alreadyApplied_returns e t s.host
  obtain ⟨s₁, hs₁, hsame⟩ : ∃ s₁ : Session μ,
      (onHost (e.alreadyApplied t)).on s = (.ok applied, s₁) ∧ s.Onward s₁ := by
    refine ⟨{ s with host := h' }, ?_, rfl, id⟩
    rw [Session.onHost, Part.on_lift, hostPart]
    dsimp only
    rw [hanswer]
  unfold apply
  rw [Act.returns_after hnow, Act.returns_after hs₁, hs₁]
  cases applied with
  | true => exact iff_of_true (finish_returns _ _ _ _) fun s₂ hs₂ => by cases hs₂
  | false =>
    refine Iff.trans ?_ ⟨fun h s₂ hs₂ => by cases hs₂; exact h, fun h => h s₁ rfl⟩
    rw [if_neg Bool.false_ne_true]
    cases e.mayRun t.operations with
    | false => exact iff_of_true (refuse_returns _ _ _) fun h => by cases h
    | true =>
      obtain ⟨s₂, hsaid, hcore⟩ := say_on (μ := μ) .info speaker
        ("Applying tweak " ++ t.id ++ " (" ++ toString t.operations.count ++ " operations)") s₁
      obtain ⟨steps, hsteps⟩ := runSteps_ok e t.id .apply ht.scripts
      rw [Bool.not_true, if_neg Bool.false_ne_true, Act.returns_after hsaid]
      refine Iff.trans ?_ ⟨fun h _ => h, fun h => h rfl⟩
      rw [← harmless_of_core hcore, ← loadSnapshot_returns]
      refine ⟨fun h => ?_, fun h => ?_⟩
      · obtain ⟨x, s₃, hload, -⟩ := Act.returns_bind.mp h
        exact ⟨x, s₃, hload⟩
      obtain ⟨_, s₃, hload⟩ := h
      have hloaded := loadSnapshot_onward t s₂
      rw [hload] at hloaded
      have hs₃ : s₃.Writable := ((hs.onward hsame).of_core hcore).onward hloaded
      obtain ⟨r, s₄, hrun, honward⟩ := execute_onward cancelled (runSteps_onward he hsteps)
        { success := true, tweakId := t.id } s₃
      obtain ⟨_, s₅, hsave⟩ := saveSnapshot_returns (hs₃.onward honward) ht.name
      rw [Act.returns_after hload, hsteps, Act.returns_after (Act.on_result _ _),
        Act.returns_after hrun, Act.returns_after hsave]
      exact finish_returns _ _ _ _

/-- The steps that revert a tweak are found unless they come to a snapshot that does harm. -/
theorem revertSteps_returns (e : Engine μ) (ht : t.Presentable) :
    (e.revertSteps t).Returns s ↔ (t.undo? = none → Harmless t s) := by
  unfold revertSteps
  cases hundo : t.undo? with
  | some ops =>
    obtain ⟨steps, hsteps⟩ := runSteps_ok e t.id .undo (ht.undo ops hundo)
    dsimp only
    rw [hsteps]
    exact iff_of_true ⟨_, _, rfl⟩ fun h => by cases h
  | none =>
    obtain ⟨s₁, hsaid, hcore⟩ := say_on (μ := μ) .info speaker
      ("Reverting tweak " ++ t.id ++ " by restoring captured state") s
    obtain ⟨steps, hsteps⟩ := restoreSteps_ok e t.id ht.scripts
    dsimp only
    rw [Act.returns_after hsaid, hsteps]
    refine (Act.returns_before fun _ s' => ⟨steps, s', rfl⟩).trans ?_
    rw [loadSnapshot_returns, harmless_of_core hcore]
    exact ⟨fun h _ => h, fun h => h rfl⟩

/-- The steps that revert a tweak lead onward, and so does what comes before them. -/
theorem revertSteps_onward (he : e.mutator.ReadsPlain) (t : Tweak) :
    GoesOnward (e.revertSteps t) ∧ ∀ {s s' steps}, (e.revertSteps t).on s = (.ok steps, s') →
      ∀ st ∈ steps, GoesOnward st.run := by
  unfold revertSteps
  cases t.undo? with
  | some ops =>
    refine ⟨(GoesOnward.say _ _ _).bind fun _ => .result _, fun {s s' steps} h => ?_⟩
    obtain ⟨_, s₁, -, h⟩ := Act.ok_of_on_bind h
    exact runSteps_onward he (Prod.mk.inj h).1
  | none =>
    refine ⟨(GoesOnward.say _ _ _).bind fun _ => (loadSnapshot_onward t).bind fun _ => .result _,
      fun {s s' steps} h => ?_⟩
    obtain ⟨_, s₁, -, h⟩ := Act.ok_of_on_bind h
    obtain ⟨_, s₂, -, h⟩ := Act.ok_of_on_bind h
    exact restoreSteps_onward (Prod.mk.inj h).1

/-- **Reverting** a tweak whose snapshot has a text for a path gives a result exactly when it
does not come to a snapshot that does harm. -/
theorem revert_returns (cancelled : Session μ → Bool) (he : e.mutator.ReadsPlain)
    (ht : t.Presentable) (hs : s.Writable) (hpath : PathIsText t s) :
    (e.revert cancelled t).Returns s ↔ (t.isReversible = true →
      e.mayRun t.revertOperations = true → t.undo? = none → Harmless t s) := by
  have hnow : (onHost Host.now : Work μ Moment).on s = (.ok s.host.clock, s) := rfl
  unfold revert
  rw [Act.returns_after hnow]
  cases t.isReversible with
  | false => exact iff_of_true (refuse_returns _ _ _) fun h => by cases h
  | true =>
    cases e.mayRun t.revertOperations with
    | false => exact iff_of_true (refuse_returns _ _ _) fun _ h => by cases h
    | true =>
      simp only [Bool.not_true, Bool.false_eq_true, if_false, forall_const]
      rw [← revertSteps_returns e ht]
      refine ⟨fun h => ?_, fun ⟨steps, s₁, hfound⟩ => ?_⟩
      · obtain ⟨steps, s₁, hfound, -⟩ := Act.returns_bind.mp h
        exact ⟨steps, s₁, hfound⟩
      obtain ⟨hleads, hsteps⟩ := revertSteps_onward he t
      have hs₁ := hleads s
      rw [hfound] at hs₁
      obtain ⟨r, s₂, hrun, hs₂⟩ := execute_onward cancelled (hsteps hfound)
        { success := true, tweakId := t.id } s₁
      have honward := hs₁.trans hs₂
      rw [Act.returns_after hfound, Act.returns_after hrun]
      cases r.clean with
      | false => exact finish_returns _ _ _ _
      | true =>
        obtain ⟨_, s₃, hdelete⟩ := deleteSnapshot_returns (hs.onward honward)
          (t := t) fun st entry hst => hpath st entry (honward.store ▸ hst)
        rw [if_pos rfl, Act.returns_after hdelete]
        exact finish_returns _ _ _ _

/-- Whatever comes of a call, what the session holds can be written. -/
theorem apply_writable (cancelled : Session μ → Bool) (he : e.mutator.ReadsPlain)
    (hname : Json.foreign? t.name = none) : (e.apply cancelled t).Preserves Session.Writable := by
  unfold apply
  refine .bind (preserves_onHost _) fun start => .bind (preserves_onHost _) fun applied => ?_
  split
  · exact finish_writable _ _ _ _
  split
  · exact refuse_writable _ _ _
  refine .bind (preserves_onHost _) fun _ => .bind (preserves_onward (loadSnapshot_onward t)) fun _ => ?_
  refine Act.Preserves.bind_of (Q := fun steps => ∀ st ∈ steps, GoesOnward st.run) (fun _ => id)
    (fun _ _ _ h => runSteps_onward he (Prod.mk.inj h).1) fun steps hsteps => ?_
  exact .bind (preserves_onward (goesOnward_execute cancelled hsteps _)) fun r =>
    .bind (saveSnapshot_writable hname) fun _ => finish_writable _ _ _ _

theorem revert_writable (cancelled : Session μ → Bool) (he : e.mutator.ReadsPlain) (t : Tweak) :
    (e.revert cancelled t).Preserves Session.Writable := by
  unfold revert
  refine .bind (preserves_onHost _) fun start => ?_
  split
  · exact refuse_writable _ _ _
  split
  · exact refuse_writable _ _ _
  obtain ⟨hleads, hsteps⟩ := revertSteps_onward he t
  refine Act.Preserves.bind_of (Q := fun steps => ∀ st ∈ steps, GoesOnward st.run)
    (preserves_onward hleads) (fun _ _ _ h => hsteps h) fun steps hsteps => ?_
  refine .bind (preserves_onward (goesOnward_execute cancelled hsteps _)) fun r => ?_
  split
  · exact .bind (deleteSnapshot_writable t) fun _ => finish_writable _ _ _ _
  · exact finish_writable _ _ _ _

end Engine

/-! ## Opening -/

namespace Snapshot.Store

variable {dir : Path} {h h' : Host μ} {disk : Disk} {loc : List String} {st : Store}

theorem entry_only (d : Datum) : Failure.Only isIndexFault (Entry.ofDatum d) := by
  unfold Entry.ofDatum
  split
  · split
    · exact .error rfl
    · dsimp only
      split
      · exact .ok _
      · exact .error rfl
  · exact .error rfl

/-- An object with wrong entries is only said. -/
theorem readIndex_only {d : Datum} (hd : d.IsObject) : Failure.Only isIndexFault (readIndex d) := by
  obtain ⟨fields, rfl⟩ := hd
  exact .bind (.mapM fun f _ => (entry_only f.2).bind fun _ => .ok _) fun _ => .ok _

theorem entry_plain {d : Datum} {e : Entry} (hd : Json.foreign? d = none)
    (h : Entry.ofDatum d = .ok e) : Json.foreign? e.toDatum = none := by
  unfold Entry.ofDatum at h
  split at h
  · next fields =>
    have hfield : ∀ {key x}, Assoc.get? key fields = some x → Json.foreign? x = none := fun hx =>
      Json.foreignField?_eq_none.mp hd (_, _) (Assoc.mem_of_get? hx)
    split at h
    · cases h
    · dsimp only at h
      split at h
      · next h₁ h₂ h₃ h₄ =>
        cases h
        refine Json.foreignField?_eq_none.mpr ?_
        simp only [List.forall_mem_cons]
        refine ⟨hfield h₁, hfield h₂, hfield h₃, hfield h₄, ?_, List.forall_mem_nil _⟩
        cases hcount : Assoc.get? "operation_count" fields with
        | none => rfl
        | some x => exact hfield hcount
      · cases h
  · cases h

theorem readIndex_plain {d : Datum} {index : Assoc String Entry} (hd : Json.foreign? d = none)
    (h : readIndex d = .ok index) : ∀ e ∈ index, Json.foreign? e.2.toDatum = none := by
  cases d with
  | object fields =>
    obtain ⟨entries, hentries, h⟩ := ok_of_bind h
    cases h
    intro e he
    obtain hnil | ⟨e', hmem, hval⟩ := Assoc.mem_update he
    · cases hnil
    obtain ⟨f, hf, hread⟩ := mem_of_mapM hentries e' hmem
    obtain ⟨entry, hentry, hread⟩ := ok_of_bind hread
    cases hread
    exact hval ▸ entry_plain (Json.foreignField?_eq_none.mp hd f hf) hentry
  | _ => cases h

/-- The directory of a store has been made, and its index has a place. -/
structure Opens (dir : Path) (h : Host μ) (disk : Disk) : Prop where
  made : (Disk.makeDirs dir).on h.disk = (.ok (), disk)
  placed : ∃ loc, disk.locate (Store.indexFile { directory := dir }) = .ok loc

/-- Only a value that is no object is not said. -/
theorem readIndex_only_iff {d : Datum} :
    Failure.Only isIndexFault (readIndex d) ↔ d.IsObject := by
  refine ⟨fun h => ?_, readIndex_only⟩
  cases d with
  | object fields => exact ⟨fields, rfl⟩
  | _ => exact nomatch h _ rfl

theorem onDisk_makeDirs (hopen : Opens dir h disk) :
    (Host.onDisk (Disk.makeDirs dir) : Call μ Unit).on h = (.ok (), { h with disk }) := by
  rw [Host.onDisk, Part.on_lift, Host.diskPart, hopen.made]

theorem onDisk_present {p : Path} {there : Bool} (hp : (Disk.present p).on h.disk = (.ok there, h.disk)) :
    (Host.onDisk (Disk.present p) : Call μ Bool).on h = (.ok there, h) := by
  rw [Host.onDisk, Part.on_lift, Host.diskPart, hp]

/-- **Opening a store** gives a result exactly when its index holds no other JSON value than an
object. -/
theorem openAt_returns (hopen : Opens dir h disk) : (openAt dir).Returns h ↔
    ∀ d, ((Disk.readJson (Store.indexFile { directory := dir })).on disk).1 = .ok d → d.IsObject := by
  obtain ⟨loc, hloc⟩ := hopen.placed
  have hpresent := Disk.present_on hloc
  unfold openAt
  rw [Act.returns_after (onDisk_makeDirs hopen)]
  dsimp only
  rw [Act.returns_after (onDisk_present (h := { h with disk }) hpresent)]
  cases hthere : (disk.at? loc).isSome with
  | false =>
    refine ⟨fun _ d hd => ?_, fun _ => ⟨_, _, rfl⟩⟩
    rw [Disk.present_of_readJson hd, hthere] at hpresent
    cases hpresent
  | true =>
    rw [Bool.not_true, if_neg Bool.false_ne_true]
    refine (Act.returns_before fun r h₁ => ?_).trans ?_
    · cases r with
      | ok index => exact ⟨_, _, rfl⟩
      | error f => exact ⟨_, _, rfl⟩
    rw [Act.rescue_returns]
    rcases hread : (Disk.readJson (Store.indexFile { directory := dir })).on disk with ⟨f | d, disk'⟩
    · have hfault := Disk.failsOnly_readJson _ disk f (congrArg Prod.fst hread)
      have hread' : ((Host.onDisk (Disk.readJson (Store.indexFile { directory := dir })) :
          Call μ Datum).on { h with disk }).1 = .error f := congrArg Prod.fst hread
      rw [Act.failsOnly_bind_error hread']
      refine iff_of_true ?_ fun d hd => by cases hd
      exact Bool.or_eq_true_iff.mpr (.inl hfault)
    · have hread' : (Host.onDisk (Disk.readJson (Store.indexFile { directory := dir })) :
          Call μ Datum).on { h with disk } = (.ok d, { h with disk := disk' }) := by
        rw [Host.onDisk, Part.on_lift, Host.diskPart, hread]
      rw [Act.failsOnly_after hread']
      exact readIndex_only_iff.trans ⟨fun hd d' hd' => by cases hd'; exact hd, fun hd => hd d rfl⟩

/-- What opening gives can be written. -/
theorem openAt_writable (hopen : Opens dir h disk) (hst : (openAt dir).on h = (.ok st, h')) :
    st.Writable := by
  obtain ⟨loc, hloc⟩ := hopen.placed
  have hnamed := (Disk.locate_ok_iff.mp hloc).1
  have hempty : Store.Writable { directory := dir } := ⟨hnamed, nofun⟩
  unfold openAt at hst
  rw [Act.on_bind_of_ok (onDisk_makeDirs hopen)] at hst
  dsimp only at hst
  rw [Act.on_bind_of_ok (onDisk_present (h := { h with disk }) (Disk.present_on hloc))] at hst
  split at hst
  · cases hst
    exact hempty
  obtain ⟨r, h₁, hr, hst⟩ := Act.ok_of_on_bind hst
  cases r with
  | error f =>
    obtain ⟨_, h₂, -, hst⟩ := Act.ok_of_on_bind hst
    cases hst
    exact hempty
  | ok index =>
    cases hst
    obtain ⟨d, h₂, hread, hindex⟩ := Act.ok_of_on_bind (Act.ok_of_rescue hr)
    exact ⟨hnamed, readIndex_plain (Disk.readJson_plain (Prod.mk.inj hread).1) (Prod.mk.inj hindex).1⟩

end Snapshot.Store

namespace Engine

open Session

variable {e : Engine μ} {t : Tweak}

/-- **Damaged snapshot files**, whatever stands in them.  Opening a store gives a result exactly
when its index holds no other JSON value than an object.  A call gives a result exactly when it
does not come to a snapshot that does harm, and what the session holds stays such that it can be
written.  A snapshot of the right shape does no harm, and one that is no object does. -/
theorem damaged_files (cancelled : Session μ → Bool) (he : e.mutator.ReadsPlain)
    (ht : t.Presentable) (hs : s.Writable) :
    (∀ (dir : Path) (h : Host μ) (disk : Disk), Snapshot.Store.Opens dir h disk →
      ((Snapshot.Store.openAt dir).Returns h ↔
        ∀ d, ((Disk.readJson (Snapshot.Store.indexFile { directory := dir })).on disk).1 = .ok d →
          d.IsObject) ∧
      ∀ st h', (Snapshot.Store.openAt dir).on h = (.ok st, h') → st.Writable) ∧
    ((e.apply cancelled t).Returns s ↔
      ∀ s₁, (onHost (e.alreadyApplied t)).on s = (.ok false, s₁) →
        e.mayRun t.operations = true → Harmless t s₁) ∧
    (PathIsText t s → ((e.revert cancelled t).Returns s ↔
      (t.isReversible = true → e.mayRun t.revertOperations = true → t.undo? = none →
        Harmless t s))) ∧
    ((e.apply cancelled t).on s).2.Writable ∧ ((e.revert cancelled t).on s).2.Writable ∧
    (∀ d, Snapshot.Shaped d → Snapshot.Harmless t d) ∧
    ∀ d, Snapshot.Harmless t d → d.IsObject :=
  ⟨fun _ _ _ hopen => ⟨Snapshot.Store.openAt_returns hopen, fun _ _ hst =>
      Snapshot.Store.openAt_writable hopen hst⟩,
    apply_returns cancelled he ht hs, revert_returns cancelled he ht hs,
    apply_writable cancelled he ht.name s hs, revert_writable cancelled he t s hs,
    fun _ hd => hd.harmless t, fun _ hd => hd.isObject⟩

/-! ## A damaged store -/

/-- A machine whose files show themselves as texts or not at all. -/
def textMutator : Mutator Machine :=
  { Machine.mutator with
    readText := fun path => do
      let x ← Machine.mutator.readText path
      return if (Json.foreign? x).isNone then x else .null }

theorem textMutator_readsPlain : textMutator.ReadsPlain := by
  intro path h x h' hx
  obtain ⟨y, h₁, -, hx⟩ := Act.ok_of_on_bind hx
  cases hx
  split
  · next hy => exact Option.isNone_iff_eq_none.mp hy
  · rfl

def damagedEngine : Engine Machine := { mutator := textMutator, skipIfApplied := false }

def damagedTweak : Tweak :=
  { id := "t"
    name := .text "T"
    operations := { registry := [{ hive := .currentUser, keyPath := .text "X", action := .createKey }] } }

/-- A host with the files of a store in `/d`. -/
def damagedHost (index snapshot : String) : Host Machine :=
  { machine := {}
    disk := { entries :=
      [(["d"], .directory), (["d", "snapshot_index.json"], .file (Encoding.utf8 index)),
       (["d", "t.json"], .file (Encoding.utf8 snapshot))] } }

/-- A session with a store that lists the snapshot of the tweak. -/
def damagedSession (snapshot : String) : Session Machine :=
  { host := damagedHost "{}" snapshot
    store := some
      { directory := Path.ofText "/d"
        index := [("t", { tweakId := .text "t", tweakName := .text "T", timestamp := .null
                          filePath := .text "/d/t.json" })] } }

theorem damagedTweak_presentable : damagedTweak.Presentable := ⟨rfl, nofun, nofun⟩

theorem damagedSession_writable (snapshot : String) : (damagedSession snapshot).Writable := by
  refine ⟨nofun, fun st hst => ?_⟩
  cases hst
  exact ⟨by decide +kernel, by decide +kernel⟩

theorem opens_damagedHost : Snapshot.Store.Opens (Path.ofText "/d") (damagedHost "\x7b" "\x7b")
    (damagedHost "\x7b" "\x7b").disk := by
  have hloc : (damagedHost "\x7b" "\x7b").disk.locate (Path.ofText "/d") = .ok ["d"] := by
    decide +kernel
  exact ⟨Disk.makeDirs_on hloc (by decide +kernel), ["d", "snapshot_index.json"], by decide +kernel⟩

/-- Nothing can be read from a file that is cut off. -/
theorem not_read_of_fails {p : Path} {d : Disk} {x : Datum}
    (h : (Disk.readJson p).fails d (fun _ _ => true) = true) :
    ((Disk.readJson p).on d).1 ≠ .ok x := by
  obtain ⟨f, d', hf, -⟩ := Act.of_fails h
  rw [hf]
  nofun

/-- A store whose files are cut off can be opened, and the tweak can be applied and reverted. -/
theorem sample_cut_off :
    (Snapshot.Store.openAt (Path.ofText "/d")).Returns (damagedHost "\x7b" "\x7b") ∧
      (damagedEngine.apply (fun _ => false) damagedTweak).Returns (damagedSession "\x7b") ∧
      (damagedEngine.revert (fun _ => false) damagedTweak).Returns (damagedSession "\x7b") := by
  have hpath : ∀ st entry, (damagedSession "\x7b").store = some st →
      Assoc.get? damagedTweak.key st.index = some entry →
        Path.ofDatum entry.filePath = .ok (Path.ofText "/d/t.json") := by
    intro st entry hst hentry
    cases hst
    have hkey : damagedTweak.key = "t" := by decide +kernel
    rw [hkey] at hentry
    cases hentry
    rfl
  have hharmless : Harmless damagedTweak (damagedSession "\x7b") :=
    .inr fun st entry hst hentry => ⟨_, hpath st entry hst hentry, fun d hd =>
      absurd hd (not_read_of_fails (by decide +kernel))⟩
  obtain ⟨hopening, happly, hrevert, -⟩ := damaged_files (fun _ => false) textMutator_readsPlain
    (e := damagedEngine) damagedTweak_presentable (damagedSession_writable "\x7b")
  refine ⟨(hopening _ _ _ opens_damagedHost).1.mpr fun d hd =>
      absurd hd (not_read_of_fails (by decide +kernel)), happly.mpr fun s₁ hs₁ _ => ?_,
    (hrevert fun st entry hst hentry => ⟨_, hpath st entry hst hentry⟩).mpr fun _ _ _ => hharmless⟩
  cases hs₁
  exact hharmless

/-- With a list in the place of the index the store cannot be opened, and with a list in the
place of a snapshot applying and reverting end with a failure. -/
theorem sample_lists :
    ¬(Snapshot.Store.openAt (Path.ofText "/d")).Returns (damagedHost "[]" "\x7b") ∧
      ¬(damagedEngine.apply (fun _ => false) damagedTweak).Returns (damagedSession "[]") ∧
      ¬(damagedEngine.revert (fun _ => false) damagedTweak).Returns (damagedSession "[]") :=
  ⟨Act.not_returns_of_fails (by decide +kernel), Act.not_returns_of_fails (by decide +kernel),
    Act.not_returns_of_fails (by decide +kernel)⟩

end Engine
end TweakEngine
