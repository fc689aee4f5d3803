/-
# The registry stays recoverable

`RegistryKept t m₀ m noted` says that the registry of the machine `m` can be brought
back to that of `m₀` from the notes of the registry operations of `t`, when these set
and delete values and create keys.  Each of these operations keeps it when it runs after
the operations before it (`RegistryKept.run`); restoring keeps it for the notes that are
left (`RegistryKept.restore`), and also for the notes as they were
(`RegistryKept.rewrite`).  Without notes every value is back (`RegistryKept.content`),
where a value without content counts as no value.
-/

import TweakEngine.Proofs.MachineSteps
import TweakEngine.Proofs.Originals

namespace TweakEngine

open Engine (Restored restoringWrite)

/-- The place of a value: its key and its name. -/
abbrev Cell := (Hive × String) × String

/-- The value at a place, if it has content. -/
def Machine.cells (m : Machine) (x : Cell) : Option RegistryValue := m.content x.1 x.2

/-- The place of the value that an operation changes. -/
def RegistryOperation.cell? (op : RegistryOperation) : Option Cell :=
  match op.action with
  | .setValue | .deleteValue => some (op.key, op.name)
  | .createKey | .deleteKey => none

namespace Tweak

/-- The place of the value that the registry operation at a position changes. -/
def cellAt (t : Tweak) (i : Nat) : Option Cell :=
  t.operations.registry[i]?.bind RegistryOperation.cell?

/-- The payloads of the registry operations before a position are no unexpected
failures. -/
def Clear (t : Tweak) (i : Nat) : Prop :=
  ∀ j < i, ∀ op, t.operations.registry[j]? = some op → op.action = .setValue →
    goesOn op.resolveValue = true

theorem Clear.succ {t : Tweak} {i : Nat} {op : RegistryOperation} (h : t.Clear i)
    (hi : t.operations.registry[i]? = some op)
    (hop : op.action = .setValue → goesOn op.resolveValue = true) : t.Clear (i + 1) := by
  intro j hj op' hop' ha
  rcases Nat.lt_succ_iff_lt_or_eq.mp hj with hlt | rfl
  · exact h j hlt op' hop' ha
  · obtain rfl : op = op' := Option.some.inj (hi.symm.trans hop')
    exact hop ha

/-- Whether running the tweak can come to the registry operation at a position. -/
def Reaches (t : Tweak) (i : Nat) : Prop := i < t.operations.registry.length ∧ t.Clear i

/-- The registry operations set and delete values and create keys, and their text fields
hold texts. -/
structure PlainRegistry (t : Tweak) : Prop where
  textual : ∀ op ∈ t.operations.registry, op.Textual
  action : ∀ op ∈ t.operations.registry, op.action ≠ .deleteKey

end Tweak

/-- Below a missing key no key is stored. -/
def Machine.Rooted (m : Machine) : Prop :=
  ∀ hive path k, m.hasKey (hive, path) = false → atOrBelow hive path k = true → m.hasKey k = false

/-- The registry of `m` can be brought back to that of `m₀` from the notes. -/
structure RegistryKept (t : Tweak) (m₀ m : Machine) (noted : Nat → Option RegistryCapture) :
    Prop where
  values : Originals t.cellAt (fun c v => c.content = v) m₀.cells m.cells noted
  gaps : NoGaps t.cellAt noted
  /-- A stored key stays stored. -/
  lasting : ∀ k, m₀.hasKey k = true → m.hasKey k = true
  /-- A key that an operation found missing was missing from the start. -/
  created : ∀ i op c, t.operations.registry[i]? = some op → op.action = .createKey →
    noted i = some c → c.existed = false → m₀.hasKey op.key = false
  /-- A value without content was there from the start. -/
  hollow : ∀ x : Cell, m.stored x.1 x.2 = some none → m₀.stored x.1 x.2 = some none
  /-- A value that no operation comes to is as it was. -/
  intact : ∀ x : Cell, (∀ i, t.Reaches i → t.cellAt i ≠ some x) →
    m.stored x.1 x.2 = m₀.stored x.1 x.2
  reached : ∀ i, noted i ≠ none → t.Reaches i

variable {t : Tweak} {m₀ m m' : Machine} {noted noted' : Nat → Option RegistryCapture} {i : Nat}
  {op : RegistryOperation} {c : RegistryCapture}

/-- What is stored at a place decides its content. -/
theorem Machine.cells_of_stored {x : Cell} (h : m'.stored x.1 x.2 = m.stored x.1 x.2) :
    m'.cells x = m.cells x := by
  rw [Machine.cells, Machine.cells, Machine.content, Machine.content, h]

theorem Machine.cells_of_keys (h : m'.keys = m.keys) : m'.cells = m.cells :=
  funext fun x => Machine.cells_of_stored (by rw [Machine.stored, Machine.stored, h])

theorem cellAt_eq (hi : t.operations.registry[i]? = some op) : t.cellAt i = op.cell? := by
  rw [Tweak.cellAt, hi, Option.bind_some]

/-- The note of an operation on a value holds the present content. -/
theorem content_noteOf {x : Cell} (hx : op.cell? = some x) : (op.noteOf m).content = m.cells x := by
  have hvalue : ∀ b, (RegistryCapture.of (m.stored op.key op.name).isSome
      (m.content op.key op.name) b).content = m.content op.key op.name := by
    intro b
    unfold RegistryCapture.of RegistryCapture.content Machine.content
    cases m.stored op.key op.name <;> rfl
  cases ha : op.action with
  | createKey | deleteKey => rw [RegistryOperation.cell?, ha] at hx; cases hx
  | setValue | deleteValue =>
    rw [RegistryOperation.cell?, ha] at hx
    cases hx
    rw [RegistryOperation.noteOf, ha]
    exact hvalue _

/-- The write of an operation on a value leaves all other values alone. -/
theorem apply_issues_frame (hop : op.Textual)
    (hact : op.action = .setValue ∨ op.action = .deleteValue) {w : Write} {a : w.Reply}
    (hw : op.issues w) (ha : m.apply w = .ok (a, m')) (y : Cell) (hy : y ≠ (op.key, op.name)) :
    m'.stored y.1 y.2 = m.stored y.1 y.2 := by
  rw [RegistryOperation.issues] at hw
  rcases hact with hact | hact
  · rw [hact] at hw
    obtain ⟨v, -, rfl⟩ := hw
    obtain ⟨m₁, h₁, hstored, -⟩ := m.apply_setValue op.hive hop.keyPath hop.storedName v
    cases ha.symm.trans h₁
    rw [hstored, if_neg fun e => hy (Prod.ext e.1 e.2)]
  · rw [hact] at hw
    subst hw
    obtain ⟨b, m₁, h₁, hstored, -⟩ := m.apply_deleteValue op.hive hop.keyPath hop.storedName
    cases ha.symm.trans h₁
    rw [hstored, if_neg fun e => hy (Prod.ext e.1 e.2)]

namespace RegistryKept

theorem refl (h : ∀ i, noted i = none) : RegistryKept t m₀ m₀ noted where
  values := .refl h
  gaps := fun _ _ i _ _ _ _ => h i
  lasting := fun _ hk => hk
  created := fun i _ c _ _ hc _ => by rw [h i] at hc; cases hc
  hollow := fun _ hx => hx
  intact := fun _ _ => rfl
  reached := fun i hi => absurd (h i) hi

/-- Only operations of the tweak are noted. -/
theorem lt_of_noted (h : RegistryKept t m₀ m noted) (hn : noted i ≠ none) :
    i < t.operations.registry.length := (h.reached i hn).1

theorem none_beyond (h : RegistryKept t m₀ m noted) :
    ∀ j ≥ t.operations.registry.length, noted j = none := fun _ hj =>
  not_not.mp fun hn => absurd (h.lt_of_noted hn) (Nat.not_lt.mpr hj)

/-- Only keys with their values count of a machine. -/
theorem of_keys (h : RegistryKept t m₀ m noted) (hk : m'.keys = m.keys) :
    RegistryKept t m₀ m' noted := by
  have hstored : ∀ k n, m'.stored k n = m.stored k n := fun k n => by
    rw [Machine.stored, Machine.stored, hk]
  have hkeys : ∀ k, m'.hasKey k = m.hasKey k := fun k => by
    rw [Machine.hasKey, Machine.hasKey, hk]
  exact {
    values := Machine.cells_of_keys hk ▸ h.values
    gaps := h.gaps
    lasting := fun k hk₀ => (hkeys k).trans (h.lasting k hk₀)
    created := h.created
    hollow := fun x hx => h.hollow x ((hstored _ _).symm.trans hx)
    intact := fun x hx => (hstored _ _).trans (h.intact x hx)
    reached := h.reached }

/-- A new note of what an operation is about to change. -/
theorem note (h : RegistryKept t m₀ m noted) (hi : t.operations.registry[i]? = some op)
    (hreach : t.Reaches i) (hfree : noted i = none) (lower : ∀ j < i, noted j ≠ none)
    (new : noted' i = some (op.noteOf m)) (same : ∀ j, j ≠ i → noted' j = noted j) :
    RegistryKept t m₀ m noted' where
  values := by
    cases hx : op.cell? with
    | some x =>
      have hcell : t.cellAt i = some x := (cellAt_eq hi).trans hx
      exact h.values.note h.gaps hcell hfree (fun j hj _ => lower j hj)
        (fun _ => content_noteOf hx) new same
    | none =>
      refine h.values.congr fun j x hj => same j fun e => ?_
      rw [e, cellAt_eq hi, hx] at hj
      cases hj
  gaps := h.gaps.note (fun j _ hj _ _ => lower j hj) new same
  lasting := h.lasting
  created := fun j op' c' hj ha hc hex => by
    by_cases hji : j = i
    · subst hji
      obtain rfl : op = op' := Option.some.inj (hi.symm.trans hj)
      rw [new] at hc
      cases hc
      rw [RegistryOperation.noteOf, ha] at hex
      cases hk : m₀.hasKey op.key with
      | false => rfl
      | true => exact absurd (h.lasting _ hk) (by rw [show m.hasKey op.key = false from hex]; simp)
    · exact h.created j op' c' hj ha ((same j hji).symm.trans hc) hex
  hollow := h.hollow
  intact := h.intact
  reached := fun j hj => by
    by_cases hji : j = i
    · rw [hji]; exact hreach
    · exact h.reached j (by rw [← same j hji]; exact hj)

/-- Keeping what an operation is about to change. -/
theorem keep (h : RegistryKept t m₀ m noted) (hi : t.operations.registry[i]? = some op)
    (hreach : t.Reaches i) (lower : ∀ j < i, noted j ≠ none)
    (now : ∀ j, noted' j = if j = i then some ((noted i).getD (op.noteOf m)) else noted j) :
    RegistryKept t m₀ m noted' := by
  rcases keep_cases now with rfl | ⟨hfree, new, same⟩
  · exact h
  · exact h.note hi hreach hfree lower new same

/-- A change of the value that a noted operation is about. -/
theorem change (h : RegistryKept t m₀ m noted) {x : Cell} (hi : t.cellAt i = some x)
    (hn : noted i ≠ none) (hstored : ∀ y : Cell, y ≠ x → m'.stored y.1 y.2 = m.stored y.1 y.2)
    (hx : m'.stored x.1 x.2 ≠ some none) (hkeys : ∀ k, m.hasKey k = true → m'.hasKey k = true) :
    RegistryKept t m₀ m' noted where
  values := h.values.write hi hn fun y hy => Machine.cells_of_stored (hstored y hy)
  gaps := h.gaps
  lasting := fun k hk => hkeys k (h.lasting k hk)
  created := h.created
  hollow := fun y hy => by
    by_cases hyx : y = x
    · subst hyx; exact absurd hy hx
    · exact h.hollow y ((hstored y hyx).symm.trans hy)
  intact := fun y hy => by
    have hyx : y ≠ x := fun e => hy i (h.reached i hn) (e ▸ hi)
    exact (hstored y hyx).trans (h.intact y hy)
  reached := h.reached

/-- Keys may be added without values. -/
theorem grow (h : RegistryKept t m₀ m noted) (hstored : ∀ k n, m'.stored k n = m.stored k n)
    (hkeys : ∀ k, m.hasKey k = true → m'.hasKey k = true) : RegistryKept t m₀ m' noted where
  values := by
    have hcells : m'.cells = m.cells := funext fun x => Machine.cells_of_stored (hstored _ _)
    exact hcells ▸ h.values
  gaps := h.gaps
  lasting := fun k hk => hkeys k (h.lasting k hk)
  created := h.created
  hollow := fun x hx => h.hollow x ((hstored _ _).symm.trans hx)
  intact := fun x hx => (hstored _ _).trans (h.intact x hx)
  reached := h.reached

/-- Keys that were missing from the start may be taken away. -/
theorem prune (h : RegistryKept t m₀ m noted) {gone : Hive × String → Bool}
    (hgone : ∀ k, gone k = true → m₀.hasKey k = false)
    (hstored : ∀ k n, m'.stored k n = if gone k then none else m.stored k n)
    (hkeys : ∀ k, m'.hasKey k = (!gone k && m.hasKey k)) : RegistryKept t m₀ m' noted where
  values := by
    refine h.values.heal fun y => ?_
    rw [Machine.cells, Machine.cells, Machine.cells, Machine.content, Machine.content,
      Machine.content, hstored]
    cases hy : gone y.1 with
    | false => exact .inl rfl
    | true => exact .inr (by rw [Machine.stored_of_not_hasKey (hgone _ hy)]; rfl)
  gaps := h.gaps
  lasting := fun k hk => by
    have hk' : gone k = false := Bool.eq_false_iff.mpr fun hg => by simp [hgone k hg] at hk
    rw [hkeys, hk', h.lasting k hk]
    rfl
  created := h.created
  hollow := fun x hx => by
    rw [hstored] at hx
    split at hx
    · cases hx
    · exact h.hollow x hx
  intact := fun x hx => by
    rw [hstored]
    split
    · next hg => exact (Machine.stored_of_not_hasKey (hgone _ hg) _).symm
    · exact h.intact x hx
  reached := h.reached

/-- The write of a noted operation keeps the registry recoverable. -/
theorem issue (h : RegistryKept t m₀ m noted) (hplain : t.PlainRegistry)
    (hi : t.operations.registry[i]? = some op) (hn : noted i ≠ none) {w : Write} {x : w.Reply}
    (hw : op.issues w) (ha : m.apply w = .ok (x, m')) : RegistryKept t m₀ m' noted := by
  have hmem : op ∈ t.operations.registry := List.mem_of_getElem? hi
  have hop := hplain.textual op hmem
  cases hact : op.action with
  | deleteKey => exact absurd hact (hplain.action op hmem)
  | createKey =>
    rw [RegistryOperation.issues, hact] at hw
    subst hw
    obtain ⟨b, m₁, h₁, hstored, hkeys⟩ := m.apply_createKey op.hive hop.keyPath
    cases ha.symm.trans h₁
    exact h.grow hstored fun k hk => by rw [hkeys, hk, Bool.or_true]
  | setValue =>
    have hframe := apply_issues_frame hop (.inl hact) hw ha
    rw [RegistryOperation.issues, hact] at hw
    obtain ⟨v, -, rfl⟩ := hw
    obtain ⟨m₁, h₁, hstored, hkeys⟩ := m.apply_setValue op.hive hop.keyPath hop.storedName v
    cases ha.symm.trans h₁
    have hcell : t.cellAt i = some (op.key, op.name) := by
      rw [cellAt_eq hi, RegistryOperation.cell?, hact]
    refine h.change hcell hn hframe ?_ fun k hk => by rw [hkeys, hk, Bool.or_true]
    rw [hstored, if_pos ⟨rfl, rfl⟩]
    exact fun e => Option.some_ne_none v (Option.some.inj e)
  | deleteValue =>
    have hframe := apply_issues_frame hop (.inr hact) hw ha
    rw [RegistryOperation.issues, hact] at hw
    subst hw
    obtain ⟨b, m₁, h₁, hstored, hkeys⟩ := m.apply_deleteValue op.hive hop.keyPath hop.storedName
    cases ha.symm.trans h₁
    have hcell : t.cellAt i = some (op.key, op.name) := by
      rw [cellAt_eq hi, RegistryOperation.cell?, hact]
    refine h.change hcell hn hframe ?_ fun k hk => by rw [hkeys, hk]
    rw [hstored, if_pos ⟨rfl, rfl⟩]
    exact (Option.some_ne_none _).symm

end RegistryKept

theorem RegistryOperation.cell?_eq_some {x : Cell} :
    op.cell? = some x ↔ (op.action = .setValue ∨ op.action = .deleteValue) ∧ (op.key, op.name) = x := by
  unfold RegistryOperation.cell?
  cases op.action <;> simp

/-- Restoring an operation on a value brings the content of the note back; the value is
stored with content or not at all. -/
theorem Engine.Restored.cell {x : Cell} (hop : op.Textual) (hx : op.cell? = some x)
    (h : Restored op c m m') :
    m'.cells x = c.content ∧ m'.stored x.1 x.2 ≠ some none ∧
      (∀ y : Cell, y ≠ x → m'.stored y.1 y.2 = m.stored y.1 y.2) ∧
      ∀ k, m.hasKey k = true → m'.hasKey k = true := by
  obtain ⟨hvalue, rfl⟩ := op.cell?_eq_some.mp hx
  have hwrite := h.value hvalue
  cases hc : c.content with
  | some v =>
    rw [hc] at hwrite
    obtain ⟨a, ha⟩ := hwrite
    obtain ⟨m₁, h₁, hstored, hkeys⟩ := m.apply_setValue op.hive hop.keyPath hop.storedName v
    cases ha.symm.trans h₁
    have hnew : m'.stored op.key op.name = some (some v) := by rw [hstored, if_pos ⟨rfl, rfl⟩]
    refine ⟨?_, by simp [hnew], fun y hy => ?_, fun k hk => ?_⟩
    · rw [Machine.cells, Machine.content, hnew, Option.join_some]
    · rw [hstored, if_neg fun e => hy (Prod.ext e.1 e.2)]
    · rw [hkeys, hk, Bool.or_true]
  | none =>
    rw [hc] at hwrite
    obtain ⟨a, ha⟩ := hwrite
    obtain ⟨b, m₁, h₁, hstored, hkeys⟩ := m.apply_deleteValue op.hive hop.keyPath hop.storedName
    cases ha.symm.trans h₁
    have hnew : m'.stored op.key op.name = none := by rw [hstored, if_pos ⟨rfl, rfl⟩]
    refine ⟨?_, by simp [hnew], fun y hy => ?_, fun k hk => ?_⟩
    · rw [Machine.cells, Machine.content, hnew, Option.join_none]
    · rw [hstored, if_neg fun e => hy (Prod.ext e.1 e.2)]
    · rw [hkeys, hk]

/-- Restoring the making of a key does nothing, or takes the key away with those below it. -/
theorem Engine.Restored.key (hop : op.Textual) (hact : op.action ≠ .deleteKey)
    (hx : op.cell? = none) (h : Restored op c m m') :
    m' = m ∨ op.action = .createKey ∧ c.existed = false ∧
      (∀ k n, m'.stored k n =
        if Machine.atOrBelow op.hive op.key.2 k then none else m.stored k n) ∧
      ∀ k, m'.hasKey k = (!Machine.atOrBelow op.hive op.key.2 k && m.hasKey k) := by
  have hcreate : op.action = .createKey := by
    cases ha : op.action with
    | createKey => rfl
    | deleteKey => exact absurd ha hact
    | setValue | deleteValue => rw [RegistryOperation.cell?, ha] at hx; cases hx
  unfold Restored at h
  rw [restoringWrite, hcreate] at h
  dsimp only at h
  cases hex : c.existed with
  | true =>
    rw [hex, if_pos rfl] at h
    exact .inl h
  | false =>
    rw [hex, if_neg Bool.false_ne_true] at h
    obtain ⟨b, hb⟩ := h
    obtain ⟨b', m₁, h₁, hstored, hkeys⟩ := m.apply_deleteKey op.hive hop.keyPath
    cases hb.symm.trans h₁
    exact .inr ⟨hcreate, rfl, hstored, hkeys⟩

/-- Restoring an operation leaves no value without content where there was none. -/
theorem Engine.Restored.hollow {x : Cell} (hop : op.Textual) (h : Restored op c m m')
    (hx : m'.stored x.1 x.2 = some none) : m.stored x.1 x.2 = some none := by
  cases hy : op.cell? with
  | some y =>
    obtain ⟨-, hnew, hstored, -⟩ := h.cell hop hy
    by_cases hxy : x = y
    · subst hxy
      exact absurd hx hnew
    · exact (hstored x hxy).symm.trans hx
  | none =>
    have hcreate : (∃ a, m.apply (.createKey op.hive op.keyPath) = .ok (a, m')) →
        m.stored x.1 x.2 = some none := by
      rintro ⟨a, ha⟩
      obtain ⟨b, m₁, h₁, hstored, -⟩ := m.apply_createKey op.hive hop.keyPath
      cases ha.symm.trans h₁
      exact (hstored _ _).symm.trans hx
    have hdelete : (∃ a, m.apply (.deleteKey op.hive op.keyPath) = .ok (a, m')) →
        m.stored x.1 x.2 = some none := by
      rintro ⟨a, ha⟩
      obtain ⟨b, m₁, h₁, hstored, -⟩ := m.apply_deleteKey op.hive hop.keyPath
      cases ha.symm.trans h₁
      rw [hstored] at hx
      split at hx
      · cases hx
      · exact hx
    unfold Restored at h
    cases ha : op.action with
    | setValue | deleteValue => rw [RegistryOperation.cell?, ha] at hy; cases hy
    | createKey =>
      rw [restoringWrite, ha] at h
      cases hex : c.existed with
      | true => rw [hex] at h; exact (congrArg (·.stored x.1 x.2) h).symm.trans hx
      | false => rw [hex] at h; exact hdelete h
    | deleteKey =>
      rw [restoringWrite, ha] at h
      cases hex : c.existed with
      | true => rw [hex] at h; exact hcreate h
      | false => rw [hex] at h; exact (congrArg (·.stored x.1 x.2) h).symm.trans hx

theorem restoringWrite_isRegistry {hive : Hive} {keyPath : Datum} {w : Write}
    (hw : restoringWrite op c hive keyPath = some w) : w.isRegistry = true := by
  unfold restoringWrite at hw
  split at hw
  · split at hw <;> cases hw
    rfl
  · split at hw <;> cases hw
    rfl
  all_goals split at hw <;> cases hw <;> rfl

/-- Restoring a registry operation leaves services and settings alone. -/
theorem Engine.Restored.frame (h : Restored op c m m') :
    m'.settings = m.settings ∧ m'.services = m.services := by
  unfold Restored at h
  cases hw : restoringWrite op c op.hive op.keyPath with
  | none => rw [hw] at h; subst h; exact ⟨rfl, rfl⟩
  | some w =>
    rw [hw] at h
    obtain ⟨a, ha⟩ := h
    obtain ⟨h₁, h₂, -⟩ := Machine.apply_registry_frame (restoringWrite_isRegistry hw) ha
    exact ⟨h₁, h₂⟩

namespace RegistryKept

/-- Restoring an operation keeps the registry recoverable from the notes as they were. -/
theorem rewrite (h : RegistryKept t m₀ m noted) (hplain : t.PlainRegistry) (hroot : m₀.Rooted)
    (hi : t.operations.registry[i]? = some op) (hn : noted i = some c)
    (hr : Restored op c m m') : RegistryKept t m₀ m' noted := by
  have hmem : op ∈ t.operations.registry := List.mem_of_getElem? hi
  have hop := hplain.textual op hmem
  cases hx : op.cell? with
  | some x =>
    obtain ⟨-, hnew, hstored, hkeys⟩ := hr.cell hop hx
    exact h.change ((cellAt_eq hi).trans hx) (by rw [hn]; exact nofun) hstored hnew hkeys
  | none =>
    rcases hr.key hop (hplain.action op hmem) hx with rfl | ⟨hact, hex, hstored, hkeys⟩
    · exact h
    · exact h.prune (fun k hk => hroot _ _ k (h.created i op c hi hact hn hex) hk) hstored hkeys

/-- Restoring an operation leaves the values alone that it is not about, or brings their
content back. -/
theorem elsewhere (h : RegistryKept t m₀ m noted) (hplain : t.PlainRegistry) (hroot : m₀.Rooted)
    (hi : t.operations.registry[i]? = some op) (hn : noted i = some c) (hr : Restored op c m m')
    {x : Cell} (hx : t.cellAt i ≠ some x) :
    m'.cells x = m.cells x ∨ m'.cells x = m₀.cells x := by
  have hmem : op ∈ t.operations.registry := List.mem_of_getElem? hi
  have hop := hplain.textual op hmem
  rw [cellAt_eq hi] at hx
  cases hy : op.cell? with
  | some y =>
    obtain ⟨-, -, hstored, -⟩ := hr.cell hop hy
    have hxy : x ≠ y := fun e => hx (e ▸ hy)
    exact .inl (Machine.cells_of_stored (hstored x hxy))
  | none =>
    rcases hr.key hop (hplain.action op hmem) hy with rfl | ⟨hact, hex, hstored, -⟩
    · exact .inl rfl
    rw [Machine.cells, Machine.cells, Machine.cells, Machine.content, Machine.content,
      Machine.content, hstored]
    split
    · next hgone =>
      have hmissing := hroot _ _ x.1 (h.created i op c hi hact hn hex) hgone
      exact .inr (by rw [Machine.stored_of_not_hasKey hmissing])
    · exact .inl rfl

/-- **Restoring the highest noted operation on a value** keeps the registry recoverable from
the notes that are left. -/
theorem restore (h : RegistryKept t m₀ m noted) (hplain : t.PlainRegistry) (hroot : m₀.Rooted)
    (hi : t.operations.registry[i]? = some op) (hn : noted i = some c)
    (hr : Restored op c m m')
    (higher : ∀ j x, i < j → t.cellAt j = some x → t.cellAt i = some x → noted j = none)
    (gone : noted' i = none) (same : ∀ j, j ≠ i → noted' j = noted j) : RegistryKept t m₀ m' noted' := by
  have h' := h.rewrite hplain hroot hi hn hr
  have hsub : ∀ j c', noted' j = some c' → noted j = some c' := fun j c' hj => by
    by_cases hji : j = i
    · rw [hji, gone] at hj; cases hj
    · rw [← same j hji]; exact hj
  refine ⟨?_, h'.gaps.release higher gone same, h'.lasting, fun j op' c' hj ha hc => ?_, h'.hollow,
    h'.intact, fun j hj => h'.reached j ?_⟩
  · cases hx : op.cell? with
    | some x =>
      have hcell : t.cellAt i = some x := (cellAt_eq hi).trans hx
      obtain ⟨hback, -⟩ := hr.cell (hplain.textual op (List.mem_of_getElem? hi)) hx
      exact h'.values.release hcell hn (fun j hj hjx => higher j x hj hjx hcell)
        (fun v hv => hback.trans hv) gone same
    | none =>
      refine h'.values.congr fun j x hj => same j fun e => ?_
      rw [e, cellAt_eq hi, hx] at hj
      cases hj
  · exact h'.created j op' c' hj ha (hsub j c' hc)
  · obtain ⟨c', hc'⟩ := Option.ne_none_iff_exists'.mp hj
    rw [hsub j c' hc']
    exact nofun

/-- Without notes every value has its content again. -/
theorem content (h : RegistryKept t m₀ m noted) (hn : ∀ i, noted i = none) (k : Hive × String)
    (n : String) : m.content k n = m₀.content k n :=
  congrFun (h.values.restored hn) (k, n)

/-- Notes stay as good as they were when everything is back. -/
theorem back (h : RegistryKept t m₀ m noted) (h' : RegistryKept t m₀ m' noted')
    (hn : ∀ i, noted' i = none) : RegistryKept t m₀ m' noted where
  values := h.values.heal fun x => .inr (congrFun (h'.values.restored hn) x)
  gaps := h.gaps
  lasting := h'.lasting
  created := h.created
  hollow := h'.hollow
  intact := h'.intact
  reached := h.reached

/-- An entry whose content is back is as it was, or it had no content, is gone, and an
operation is about it. -/
theorem entry_of_content (h : RegistryKept t m₀ m noted) {x : Cell}
    (hc : m.cells x = m₀.cells x) :
    m.stored x.1 x.2 = m₀.stored x.1 x.2 ∨
      m₀.stored x.1 x.2 = some none ∧ m.stored x.1 x.2 = none ∧
        ∃ i, t.Reaches i ∧ t.cellAt i = some x := by
  by_cases hex : ∃ i, t.Reaches i ∧ t.cellAt i = some x
  · have hh := h.hollow x
    unfold Machine.cells Machine.content at hc
    revert hc hh
    rcases m.stored x.1 x.2 with _ | _ | v <;> rcases m₀.stored x.1 x.2 with _ | _ | v' <;>
      simp [hex]
  · exact .inl (h.intact x fun i hi hat => hex ⟨i, hi, hat⟩)

/-- An entry of a machine without notes is as it was, or it had no content, is gone, and
an operation is about it. -/
theorem entry (h : RegistryKept t m₀ m noted) (hn : ∀ i, noted i = none) (x : Cell) :
    m.stored x.1 x.2 = m₀.stored x.1 x.2 ∨
      m₀.stored x.1 x.2 = some none ∧ m.stored x.1 x.2 = none ∧
        ∃ i, t.Reaches i ∧ t.cellAt i = some x :=
  h.entry_of_content (h.content hn x.1 x.2)

end RegistryKept
end TweakEngine
