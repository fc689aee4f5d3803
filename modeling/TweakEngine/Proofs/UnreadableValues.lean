/-
# Values that cannot be read

A denied key hides its values: reading one answers that the key is there and that access is
denied, with the fields of a missing value.  An operation notes these fields and not the
refusal, so a hidden value is noted as a missing one, and reverting deletes it, also when the
operation's own write was refused and has left it alone (`sample_deleted`).
`revert_unreadable` says for any set of denied keys what applying and then reverting a tweak
of such operations does: values that are shown come back, values that no operation has noted
stay, and all others are gone.

The notes are followed along `Machine.faces`, which pairs what a reading shows of a value
with what is stored, so that `Originals` says on the way up what each note knows and on the way
down what each note brings back.
-/

import TweakEngine.Proofs.Restoration

namespace TweakEngine

open Session

namespace Machine

variable {m : Machine}

/-- The value that a reading shows. -/
def shown (m : Machine) (x : Cell) : Option RegistryValue := (m.reading x.1.1 x.1.2 x.2).value?

/-- What a reading shows of a value, and what is stored. -/
def faces (m : Machine) (x : Cell) : Option RegistryValue × Option (Option RegistryValue) :=
  (m.shown x, m.stored x.1 x.2)

theorem shown_eq (m : Machine) (x : Cell) :
    m.shown x = if x.1 ∈ m.denied then none else m.content x.1 x.2 := by
  unfold shown reading content stored
  split
  · rfl
  · cases Assoc.get? (x.1.1, x.1.2) m.keys with
    | none => rfl
    | some values =>
      dsimp only [Option.bind_some]
      cases Assoc.get? x.2 values <;> rfl

/-- A value has its faces from what is stored. -/
theorem faces_congr {m' : Machine} {x : Cell} (hd : m'.denied = m.denied)
    (hx : m'.stored x.1 x.2 = m.stored x.1 x.2) : m'.faces x = m.faces x := by
  rw [faces, faces, shown_eq, shown_eq, hd, content, content, hx]

/-- A value that is missing or shown is the value that is shown. -/
theorem Shows.stored_eq {x : Cell} (h : m.Shows x.1 x.2) :
    m.stored x.1 x.2 = (m.shown x).map some := by
  rcases h with h | ⟨v, hv⟩
  · have hmissing : m.shown x = none := by
      rw [shown_eq, content, h]
      split <;> rfl
    rw [h, hmissing]
    rfl
  · have hshown : m.shown x = some v := by rw [shown, hv]; rfl
    rw [hshown]
    exact stored_of_reading hv

/-- A value that is stored and not shown reads as none. -/
theorem shown_of_hidden {x : Cell} (h : ¬m.Shows x.1 x.2) : m.shown x = none := by
  cases hr : m.reading x.1.1 x.1.2 x.2 with
  | found v =>
    cases v with
    | some v => exact absurd (.inr ⟨v, hr⟩) h
    | none => rw [shown, hr]; rfl
  | _ => rw [shown, hr]; rfl

end Machine

/-- The note of an operation on a value holds what a reading shows. -/
theorem content_seen {op : RegistryOperation} {m : Machine} {x : Cell} (hx : op.cell? = some x) :
    (op.seen m).content = m.shown x := by
  have hof : ∀ r : Reading, (RegistryCapture.of r.valueExists r.value? r.keyExists).content =
      r.value? := by
    intro r
    cases r <;> rfl
  cases ha : op.action with
  | createKey | deleteKey => rw [RegistryOperation.cell?, ha] at hx; cases hx
  | setValue | deleteValue =>
    rw [RegistryOperation.cell?, ha] at hx
    cases hx
    rw [RegistryOperation.seen, ha]
    exact hof _

/-- The tweak sets and deletes values and does nothing else. -/
structure Tweak.OnlyValues (t : Tweak) : Prop where
  textual : ∀ op ∈ t.operations.registry, op.Textual
  action : ∀ op ∈ t.operations.registry, op.action = .setValue ∨ op.action = .deleteValue
  services : t.operations.services = []
  scripts : t.operations.scripts = []
  files : t.operations.files = []

variable {t : Tweak} {m₀ m m' : Machine} {e : Engine Machine} {i : Nat} {op : RegistryOperation}
  {c c₀ : Core Machine} {cancelled : Session Machine → Bool}

namespace Tweak.OnlyValues

/-- Every operation is about a value. -/
theorem cell (h : t.OnlyValues) (hi : t.operations.registry[i]? = some op) :
    op.cell? = some (op.key, op.name) ∧ t.cellAt i = some (op.key, op.name) := by
  have hcell : op.cell? = some (op.key, op.name) := by
    rcases h.action op (List.mem_of_getElem? hi) with ha | ha <;> rw [RegistryOperation.cell?, ha]
  exact ⟨hcell, (cellAt_eq hi).trans hcell⟩

end Tweak.OnlyValues

/-! ## Applying -/

/-- The first operations have noted what reading showed. -/
structure ShownNoted (t : Tweak) (m₀ : Machine) (i : Nat) (c : Core Machine) : Prop where
  settings : c.machine.settings = m₀.settings
  store : c.store = none
  known : Originals t.cellAt (fun n v => n.content = v.1) m₀.faces c.machine.faces
    (c.memory.registryNote t.id)
  lower : ∀ j < i, c.memory.registryNote t.id j ≠ none
  upper : ∀ j ≥ i, c.memory.registryNote t.id j = none
  within : i ≤ t.operations.registry.length

/-- A run has gone on to some operation; a `whole` one to the last that it comes to. -/
structure NotedUpTo (whole : Prop) (t : Tweak) (m₀ : Machine) (c : Core Machine) : Prop where
  upTo : ∃ i, ShownNoted t m₀ i c
  all : whole → ∀ j, t.Reaches j → c.memory.registryNote t.id j ≠ none

namespace ShownNoted

theorem gaps (h : ShownNoted t m₀ i c) : NoGaps t.cellAt (c.memory.registryNote t.id) := by
  intro x j k hjk _ _ hj
  have hij : i ≤ j := Nat.le_of_not_lt fun hlt => h.lower j hlt hj
  exact h.upper k (Nat.le_trans hij (Nat.le_of_lt hjk))

theorem start (hset : c.machine.settings = m₀.settings) (hstore : c.store = none)
    (hfaces : c.machine.faces = m₀.faces) (hn : ∀ j, c.memory.registryNote t.id j = none) :
    ShownNoted t m₀ 0 c :=
  ⟨hset, hstore, hfaces ▸ .refl hn, fun _ hj => absurd hj (Nat.not_lt_zero _), fun j _ => hn j,
    Nat.zero_le _⟩

/-- Noting what reading shows of the next value. -/
theorem note (h : ShownNoted t m₀ i c) (ht : t.OnlyValues)
    (hi : t.operations.registry[i]? = some op) :
    ShownNoted t m₀ (i + 1) (Engine.notedAs c ⟨t.id, .apply, i⟩ (op.seen c.machine)) := by
  obtain ⟨hcell, hat⟩ := ht.cell hi
  have hfree := h.upper i (Nat.le_refl i)
  have hnote : ∀ j, (Engine.notedAs c ⟨t.id, .apply, i⟩ (op.seen c.machine)).memory.registryNote
      t.id j = if j = i then some ((c.memory.registryNote t.id i).getD (op.seen c.machine))
        else c.memory.registryNote t.id j :=
    fun j => Captures.get?_keep_index t.id i j (op.seen c.machine) c.memory.registry
  have new : (Engine.notedAs c ⟨t.id, .apply, i⟩ (op.seen c.machine)).memory.registryNote t.id i =
      some (op.seen c.machine) := by rw [hnote, if_pos rfl, hfree, Option.getD_none]
  have same : ∀ j, j ≠ i → (Engine.notedAs c ⟨t.id, .apply, i⟩ (op.seen c.machine)).memory.registryNote
      t.id j = c.memory.registryNote t.id j := fun j hj => by rw [hnote, if_neg hj]
  refine ⟨h.settings, h.store, ?_, fun j hj => ?_, fun j hj => ?_,
    (List.getElem?_eq_some_iff.mp hi).1⟩
  · exact h.known.note h.gaps hat hfree (fun j hj _ => h.lower j hj) (fun _ => content_seen hcell)
      new same
  · exact keep_ne_none hnote ((Nat.lt_succ_iff_lt_or_eq.mp hj).imp_left (h.lower j))
  · rw [same j (by omega)]
    exact h.upper j (by omega)

/-- The write of an operation that has made its note. -/
theorem issue (h : ShownNoted t m₀ (i + 1) c) (ht : t.OnlyValues)
    (hi : t.operations.registry[i]? = some op) {w : Write} {x : w.Reply} (hw : op.issues w)
    (ha : c.machine.apply w = .ok (x, m')) : ShownNoted t m₀ (i + 1) { c with machine := m' } := by
  obtain ⟨-, hat⟩ := ht.cell hi
  have hmem := List.mem_of_getElem? hi
  have hset := (Machine.apply_registry_frame (issues_isRegistry hw) ha).1
  have hframe := apply_issues_frame (ht.textual op hmem) (ht.action op hmem) hw ha
  refine ⟨hset.trans h.settings, h.store, ?_, h.lower, h.upper, h.within⟩
  refine h.known.write hat (h.lower i (Nat.lt_succ_self i)) fun y hy => ?_
  exact Machine.faces_congr (congrArg (·.1) hset) (hframe y hy)

end ShownNoted

/-- Running an operation after those before it. -/
theorem runValue_takes (he : e.WorksOn) (hm : m₀.Willing) (ht : t.OnlyValues)
    (hi : t.operations.registry[i]? = some op) (label : Datum) :
    (⟨label, e.runRegistry ⟨t.id, .apply, i⟩ op⟩ : Step Machine).Takes
      (fun c => ShownNoted t m₀ i c ∧ t.Clear i) (fun c => ShownNoted t m₀ (i + 1) c ∧ t.Clear (i + 1))
      (NotedUpTo e.Faithful t m₀) := by
  rintro s ⟨hs, hclear⟩
  obtain ⟨r, s', hs', hfail, hgo, hcore⟩ := Engine.runRegistry_seen he ⟨t.id, .apply, i⟩
    (hm.of_settings hs.settings) (ht.textual op (List.mem_of_getElem? hi))
  have hnext : ShownNoted t m₀ (i + 1) s'.core := by
    have hnoted := hs.note ht hi
    rcases hcore with h | ⟨w, x, m', hw, ha, h⟩
    · exact h ▸ hnoted
    · exact h ▸ hnoted.issue ht hi hw ha
  dsimp only
  rw [hs']
  cases hr : goesOn r with
  | true =>
    refine ⟨hnext, hclear.succ hi fun ha => ?_⟩
    cases hv : op.resolveValue with
    | ok v => rfl
    | error f =>
      rw [hfail f ha hv] at hr
      exact hr
  | false =>
    refine ⟨⟨i + 1, hnext⟩, fun hf j hj => ?_⟩
    rcases Nat.lt_or_ge j (i + 1) with hlt | hge
    · exact hnext.lower j hlt
    · rw [hgo hf fun ha => hj.2 i (by omega) op hi ha] at hr
      cases hr

/-- The steps of the tweak are those of its registry operations. -/
theorem Tweak.OnlyValues.runSteps_eq (ht : t.OnlyValues) (e : Engine Machine) :
    e.runSteps t.id .apply t.operations = .ok (Engine.stepsFor t.id .apply t.operations.registry
      fun slot op => ⟨op.describe, e.runRegistry slot op⟩) := by
  rw [Engine.runSteps, ht.services, ht.scripts, ht.files]
  simp [Engine.stepsFor, bind, Except.bind, pure, Except.pure]

theorem Tweak.OnlyValues.restoreSteps_eq (ht : t.OnlyValues) (e : Engine Machine) :
    e.restoreSteps t.id t.operations = .ok (Engine.stepsFor t.id .apply t.operations.registry
      fun slot op => ⟨Engine.undoing "Restore" op.describe, e.restoreRegistry slot op⟩).reverse := by
  rw [Engine.restoreSteps, ht.services, ht.scripts, ht.files]
  simp [Engine.stepsFor, bind, Except.bind, pure, Except.pure]

/-- Applying notes what reading showed before. -/
theorem apply_shown (cancelled : Session Machine → Bool) (he : e.WorksOn)
    (hd : e.detector = none) (hel : e.elevated = true) (hm : m₀.Willing) (ht : t.OnlyValues)
    {s : Session Machine} (hs : ShownNoted t m₀ 0 s.core) :
    NotedUpTo (e.Faithful ∧ ∀ s, cancelled s = false) t m₀ ((e.apply cancelled t).on s).2.core := by
  obtain ⟨s₁, hcore, hdoes⟩ := Engine.apply_does cancelled (.inr hd) (Engine.mayRun_of_elevated hel _)
    (ht.runSteps_eq e) s
  have hlead : Engine.Leads cancelled (Engine.stepsFor t.id .apply t.operations.registry
      fun slot op => ⟨op.describe, e.runRegistry slot op⟩)
      (fun c => ShownNoted t m₀ 0 c ∧ t.Clear 0)
      (fun c => ShownNoted t m₀ t.operations.registry.length c ∧
        t.Clear t.operations.registry.length)
      (NotedUpTo (e.Faithful ∧ ∀ s, cancelled s = false) t m₀) :=
    Engine.leads_upward (I := fun i c => ShownNoted t m₀ i c ∧ t.Clear i)
      (fun i s hc h => ⟨⟨i, h.1⟩, fun hw => by rw [hw.2 s] at hc; cases hc⟩)
      fun i op hi => (runValue_takes he hm ht hi op.describe).weaken
        fun c h => ⟨h.upTo, fun hw => h.all hw.1⟩
  have hclear : t.Clear 0 := fun j hj => absurd hj (Nat.not_lt_zero j)
  obtain ⟨r, s₂, hrun, hend⟩ := applyRun_on_none (t := t) (s := s₁) hlead
    (by rw [hcore]; exact ⟨hs, hclear⟩) (by rw [hcore]; exact hs.store)
    (fun _ h => h.1.store) fun _ h => h.upTo.elim fun _ h => h.store
  rw [hrun] at hdoes
  obtain ⟨r', s', hcall, hcore', -, -⟩ := hdoes
  rw [hcall, hcore']
  rcases hend with ⟨-, hnoted, -⟩ | ⟨-, hnoted⟩
  · exact ⟨⟨_, hnoted⟩, fun _ j hj => hnoted.lower j hj.1⟩
  · exact hnoted

/-! ## Reverting -/

/-- What a note brings back under a value name. -/
def RegistryCapture.entry (n : RegistryCapture) : Option (Option RegistryValue) :=
  n.content.map some

/-- Some operation has noted the value. -/
def Tweak.HasNoted (t : Tweak) (c : Core Machine) (x : Cell) : Prop :=
  ∃ i, t.cellAt i = some x ∧ c.memory.registryNote t.id i ≠ none

/-- What reverting leaves of a value: what was shown of it if some operation has noted it, and
else what was stored. -/
noncomputable def Machine.reverted (m : Machine) (t : Tweak) (c₀ : Core Machine) (x : Cell) :
    Option (Option RegistryValue) := by
  classical
  exact if t.HasNoted c₀ x then (m.shown x).map some else m.stored x.1 x.2

/-- All operations from a position on are back. -/
structure ShownBack (t : Tweak) (m₀ : Machine) (c₀ : Core Machine) (i : Nat) (c : Core Machine) :
    Prop where
  settings : c.machine.settings = m₀.settings
  store : c.store = none
  known : Originals t.cellAt (fun n v => n.entry = v) (m₀.reverted t c₀)
    (fun x => c.machine.stored x.1 x.2) (c.memory.registryNote t.id)
  gone : ∀ j ≥ i, c.memory.registryNote t.id j = none

namespace ShownBack

theorem of_noted (h : ShownNoted t m₀ i c) : ShownBack t m₀ c t.operations.registry.length c := by
  refine ⟨h.settings, h.store, ⟨fun x hx => ?_, fun x j n hj hn hlow => ?_⟩,
    fun j hj => h.upper j (Nat.le_trans h.within hj)⟩
  · have hcur : c.machine.faces x = m₀.faces x := h.known.untouched x hx
    rw [Machine.reverted, if_neg]
    · exact congrArg Prod.snd hcur
    · rintro ⟨j, hj, hn⟩
      exact hn (hx j hj)
  · have hcontent : n.content = m₀.shown x := h.known.first x j n hj hn hlow
    rw [Machine.reverted, if_pos ⟨j, hj, by rw [hn]; exact nofun⟩, RegistryCapture.entry, hcontent]

/-- An operation without a note has nothing to bring back. -/
theorem skip (h : ShownBack t m₀ c₀ (i + 1) c) (hn : c.memory.registryNote t.id i = none) :
    ShownBack t m₀ c₀ i c := by
  exact ⟨h.settings, h.store, h.known, none_from hn h.gone⟩

/-- Bringing back what an operation has noted. -/
theorem restore (h : ShownBack t m₀ c₀ (i + 1) c) (ht : t.OnlyValues)
    (hi : t.operations.registry[i]? = some op) {n : RegistryCapture}
    (hn : c.memory.registryNote t.id i = some n) (hr : Engine.Restored op n c.machine m') :
    ShownBack t m₀ c₀ i { c with
      machine := m'
      memory := { c.memory with registry := Assoc.erase ⟨t.id, .apply, i⟩ c.memory.registry } } := by
  obtain ⟨hcell, hat⟩ := ht.cell hi
  obtain ⟨hback, hcontent, hframe, -⟩ := hr.cell (ht.textual op (List.mem_of_getElem? hi)) hcell
  have hentry : m'.stored op.key op.name = n.entry := by
    rw [RegistryCapture.entry, ← hback, Machine.cells, Machine.content]
    revert hcontent
    rcases m'.stored op.key op.name with _ | _ | v <;> simp
  have hnote := fun j => Captures.get?_erase_index t.id i j c.memory.registry
  have gone : Assoc.get? ⟨t.id, .apply, i⟩
      (Assoc.erase ⟨t.id, .apply, i⟩ c.memory.registry) = none := (hnote i).trans (if_pos rfl)
  have same : ∀ j, j ≠ i → Assoc.get? ⟨t.id, .apply, j⟩
      (Assoc.erase ⟨t.id, .apply, i⟩ c.memory.registry) = c.memory.registryNote t.id j :=
    fun j hj => (hnote j).trans (if_neg hj)
  refine ⟨hr.frame.1.trans h.settings, h.store, ?_, fun j hj => ?_⟩
  · have hwritten : Originals t.cellAt (fun n v => n.entry = v) (m₀.reverted t c₀)
        (fun x => m'.stored x.1 x.2) (c.memory.registryNote t.id) :=
      h.known.write hat (by rw [hn]; exact Option.some_ne_none n) hframe
    exact hwritten.release hat hn (fun j hj _ => h.gone j hj) (fun v hv => hentry.trans hv) gone same
  · rcases Nat.eq_or_lt_of_le hj with rfl | hlt
    · exact gone
    · exact (same j (Nat.ne_of_gt hlt)).trans (h.gone j hlt)

end ShownBack

/-- Restoring an operation when those after it are back. -/
theorem restoreValue_takes {W : Core Machine → Prop} (he : e.Faithful) (hm : m₀.Willing)
    (ht : t.OnlyValues) (hi : t.operations.registry[i]? = some op) (label : Datum) :
    (⟨label, e.restoreRegistry ⟨t.id, .apply, i⟩ op⟩ : Step Machine).Takes
      (ShownBack t m₀ c₀ (i + 1)) (ShownBack t m₀ c₀ i) W := by
  intro s hs
  cases hn : s.core.memory.registryNote t.id i with
  | none =>
    dsimp only
    rw [Engine.restoreRegistry_on_none ⟨t.id, .apply, i⟩ hn]
    exact hs.skip hn
  | some n =>
    obtain ⟨s', m', hs', hm', hcore⟩ := Engine.restoreRegistry_on he ⟨t.id, .apply, i⟩
      (hm.of_settings hs.settings) (ht.textual op (List.mem_of_getElem? hi)) hn
    dsimp only
    rw [hs', hcore]
    exact hs.restore ht hi hn hm'

/-- Reverting leaves what was shown, or stored, before. -/
theorem revert_shown (he : e.Bare) (hm : m₀.Willing) (ht : t.OnlyValues)
    (hr : t.isReversible = true) (hu : t.undo? = none) {s : Session Machine}
    (hs : ShownNoted t m₀ i s.core) :
    ∃ r s', (e.revert (fun _ => false) t).on s = (.ok r, s') ∧ r.success = true ∧
      ∀ x : Cell, s'.host.machine.stored x.1 x.2 = m₀.reverted t s.core x := by
  obtain ⟨s₁, hcore, hdoes⟩ := Engine.revert_does (fun _ => false) he.elevated hr hu
    (ht.restoreSteps_eq e) s
  have hlead : Engine.Leads (fun _ => false) (Engine.stepsFor t.id .apply t.operations.registry
      fun slot op => ⟨Engine.undoing "Restore" op.describe, e.restoreRegistry slot op⟩).reverse
      (ShownBack t m₀ s.core t.operations.registry.length) (ShownBack t m₀ s.core 0)
      (fun _ => False) :=
    Engine.leads_downward (fun _ _ hc _ => nomatch hc)
      fun i op hi => restoreValue_takes he.faithful hm ht hi _
  obtain ⟨r, s₂, hrun, hend⟩ := revertRun_on_none (t := t) (s := s₁) hlead
    (by rw [hcore]; exact .of_noted hs) (by rw [hcore]; exact hs.store)
    (fun _ h => h.store) fun _ h => h.elim
  rw [hrun] at hdoes
  obtain ⟨r', s', hcall, hcore', hsucc, -⟩ := hdoes
  rcases hend with ⟨hr, hback⟩ | ⟨-, hfalse⟩
  · refine ⟨r', s', hcall, hsucc.trans hr, fun x => ?_⟩
    have hmachine : s'.host.machine = s₂.core.machine := congrArg Core.machine hcore'
    rw [hmachine]
    exact congrFun (hback.known.restored fun j => hback.gone j (Nat.zero_le j)) x
  · exact hfalse.elim

/-- **Applying and then reverting, with any keys denied.**  However the application was cut
short and whatever it was refused, reverting runs to its end.  Then a value that some operation
has noted although reading it shows none is gone, and every other value is as it was before.
An application that is neither refused a write nor cancelled notes the value of every
operation that it comes to. -/
theorem revert_unreadable (he : e.Bare) (ht : t.OnlyValues) (hr : t.isReversible = true)
    (hu : t.undo? = none) {s s₁ : Session Machine} (hm : s.host.machine.Willing)
    (hstore : s.store = none) (hn : ∀ i, s.memory.registryNote t.id i = none)
    {refuses : Host Machine → Write → Option Failure}
    (happly : Turn.take e t s (.apply cancelled refuses) = s₁) :
    (∃ r s₂, (e.revert (fun _ => false) t).on s₁ = (.ok r, s₂) ∧ r.success = true ∧
      ∀ x : Cell,
        (t.HasNoted s₁.core x → ¬s.host.machine.Shows x.1 x.2 →
          s₂.host.machine.stored x.1 x.2 = none) ∧
        (¬t.HasNoted s₁.core x ∨ s.host.machine.Shows x.1 x.2 →
          s₂.host.machine.stored x.1 x.2 = s.host.machine.stored x.1 x.2)) ∧
      ((∀ h w, refuses h w = none) → (∀ s, cancelled s = false) →
        ∀ i x, t.Reaches i → t.cellAt i = some x → t.HasNoted s₁.core x) := by
  have hnoted : NotedUpTo ((e.refusing refuses).Faithful ∧ ∀ s, cancelled s = false) t
      s.host.machine s₁.core := by
    rw [← happly]
    exact apply_shown cancelled (he.refusing_worksOn refuses) he.detector he.elevated hm ht
      (.start rfl hstore rfl hn)
  obtain ⟨i, hupTo⟩ := hnoted.upTo
  obtain ⟨r, s₂, hcall, hsucc, hback⟩ := revert_shown he hm ht hr hu hupTo
  refine ⟨⟨r, s₂, hcall, hsucc, fun x => ⟨fun hx hhidden => ?_, fun h => ?_⟩⟩,
    fun hnone hc i x hi hx => ?_⟩
  · rw [hback x, Machine.reverted, if_pos hx, Machine.shown_of_hidden hhidden]
    rfl
  · rw [hback x, Machine.reverted]
    split
    · next hx => exact (h.resolve_left (absurd hx)).stored_eq.symm
    · rfl
  · obtain rfl : refuses = fun _ _ => none := funext fun h => funext fun w => hnone h w
    exact ⟨i, hx, hnoted.all ⟨he.refusing_none, hc⟩ i hi⟩

/-- A tweak that sets a value of a key that is denied and one of a key that is not. -/
def hiddenTweak : Tweak :=
  { id := "hidden"
    name := .text "Hidden"
    operations :=
      { registry :=
          [{ hive := .localMachine, keyPath := .text "Demo", valueName := .text "level"
             value := .int 1 },
           { hive := .localMachine, keyPath := .text "Open", valueName := .text "level"
             value := .int 1 }] } }

/-- A session with a value of a denied key and one of another key. -/
def hiddenSession : Session Machine :=
  { host := { machine :=
      { keys := [((.localMachine, "demo"), [("level", some (.dword 3))]),
          ((.localMachine, "open"), [("level", some (.dword 3))])]
        denied := [(.localMachine, "demo")] } } }

theorem hiddenTweak_onlyValues : hiddenTweak.OnlyValues where
  textual := by
    simp only [hiddenTweak, List.forall_mem_cons, List.not_mem_nil, false_implies, implies_true,
      and_true]
    exact ⟨⟨⟨_, rfl⟩, .inr ⟨_, rfl⟩⟩, ⟨⟨_, rfl⟩, .inr ⟨_, rfl⟩⟩⟩
  action := fun op hop => by
    simp only [hiddenTweak, List.mem_cons, List.not_mem_nil, or_false] at hop
    rcases hop with rfl | rfl <;> exact .inl rfl
  services := rfl
  scripts := rfl
  files := rfl

/-- The value that was hidden is gone and the other one is back. -/
theorem sample_reverted :
    let e : Engine Machine := { mutator := Machine.mutator }
    e.Bare ∧ hiddenTweak.OnlyValues ∧ ∃ r s₂, (e.revert (fun _ => false) hiddenTweak).on
        (Turn.take e hiddenTweak hiddenSession (.apply (fun _ => false) fun _ _ => none)) =
          (.ok r, s₂) ∧ r.success = true ∧
      s₂.host.machine.stored (.localMachine, "demo") "level" = none ∧
      s₂.host.machine.stored (.localMachine, "open") "level" = some (some (.dword 3)) := by
  intro e
  have he : Engine.Bare e := ⟨rfl, rfl, rfl, rfl⟩
  obtain ⟨⟨r, s₂, hcall, hsucc, hback⟩, hnoted⟩ := revert_unreadable he hiddenTweak_onlyValues
    rfl rfl (s := hiddenSession) (fun _ => rfl) rfl (fun _ => rfl)
    (rfl : Turn.take e hiddenTweak hiddenSession (.apply (fun _ => false) fun _ _ => none) = _)
  have hreach : hiddenTweak.Reaches 0 := ⟨by decide, fun j hj => absurd hj (Nat.not_lt_zero j)⟩
  have hdemo := hnoted (fun _ _ => rfl) (fun _ => rfl) 0 ((.localMachine, "demo"), "level") hreach rfl
  refine ⟨he, hiddenTweak_onlyValues, r, s₂, hcall, hsucc,
    (hback ((.localMachine, "demo"), "level")).1 hdemo ?_,
    (hback ((.localMachine, "open"), "level")).2 (.inr (.inr ⟨.dword 3, ?_⟩))⟩
  · rintro (h | ⟨v, h⟩)
    · exact absurd h (by decide +kernel)
    · have hdenied : hiddenSession.host.machine.reading .localMachine "demo" "level" =
          .denied "Access is denied" := by decide +kernel
      exact absurd (hdenied.symm.trans h) nofun
  · decide +kernel

/-- A value of a denied key that the application was refused to set and has left alone: it is
recorded as failed, and reverting deletes the value. -/
theorem sample_deleted :
    let e : Engine Machine := { mutator := Machine.mutator }
    let busy : Host Machine → Write → Option Failure := fun _ _ => some (.refused "busy")
    let s₁ := Turn.take e hiddenTweak hiddenSession (.apply (fun _ => false) busy)
    ((e.refusing busy).apply (fun _ => false) hiddenTweak).succeeds hiddenSession
        (fun r _ => r.success && r.failed.length == 2) = true ∧
      s₁.host.machine.keys = hiddenSession.host.machine.keys ∧
      s₁.host.machine.stored (.localMachine, "demo") "level" = some (some (.dword 3)) ∧
      (e.revert (fun _ => false) hiddenTweak).succeeds s₁ (fun r s₂ => r.success &&
        s₂.host.machine.stored (.localMachine, "demo") "level" == none) = true := by
  decide +kernel

end TweakEngine
