/-
# Keys that a revert leaves behind

Setting a value in a missing key makes the key.  What was noted says so
(`RegistryCapture.keyExisted`), but no restoring write looks at it: the value is taken away again
and the key stays.  Only the restoring of a `createKey` that has made its key removes
keys, together with all that is below, and a value that an operation further up in the list puts
back into one of them makes this key once more.  `keys_after_revert` says exactly which
keys are left (`LeavesKey`), and that no key is lost.

An operation is followed to the place where it goes (`RegistryOperation.sentBy`), so that the
hive of a target user makes no difference.
-/

import TweakEngine.Proofs.DamagedSnapshots
import TweakEngine.Proofs.FileRestoration
import TweakEngine.Proofs.JointNotes
import TweakEngine.Proofs.OperationWrites
import TweakEngine.Proofs.OverwritingSteps
import TweakEngine.Proofs.UnreadableValues

namespace TweakEngine

open Session

/-! ## What operations do to keys -/

namespace RegistryOperation

/-- The value that the operation sets, if it sets one. -/
def setting? (op : RegistryOperation) : Option RegistryValue :=
  match op.action, op.resolveValue with
  | .setValue, .ok v? => v?
  | _, _ => none

/-- The operation makes a key: its own, or that of the value it sets. -/
def Makes (op : RegistryOperation) (k : Hive × String) : Prop :=
  op.key = k ∧ (op.action = .createKey ∨ op.setting? ≠ none)

/-- What stands under a value name after the operation. -/
def valueAfter (op : RegistryOperation) (k : Hive × String) (n : String)
    (old : Option (Option RegistryValue)) : Option (Option RegistryValue) :=
  if k = op.key ∧ n = op.name then
    match op.action, op.setting? with
    | .deleteValue, _ => none
    | _, some v => some (some v)
    | _, none => old
  else old

/-- What an operation that removes no key makes of the registry. -/
structure Changes (op : RegistryOperation) (m m' : Machine) : Prop where
  settings : m'.settings = m.settings
  keys : ∀ k, m'.hasKey k = true ↔ m.hasKey k = true ∨ op.Makes k
  values : ∀ k n, m'.stored k n = op.valueAfter k n (m.stored k n)

variable {op : RegistryOperation} {m m' : Machine} {c : RegistryCapture}

/-- Setting a value changes nothing when the payload gives none. -/
theorem changes_nothing (ha : op.action = .setValue) (hs : op.setting? = none) :
    op.Changes m m where
  settings := rfl
  keys k := by simp [Makes, ha, hs]
  values k n := by rw [valueAfter, ha, hs, ite_self]

theorem changes_of_carries (hop : op.Textual) (ha : op.action ≠ .deleteKey)
    {r : Except Failure (Option String)}
    (h : Engine.Carries m (op.writeAt (op.hive, op.keyPath)) r m') : op.Changes m m' := by
  have hpath := Machine.folded_text hop.keyPath
  have hnames : Machine.cellNames op.keyPath op.valueName = .ok (op.key.2, op.name) := by
    rw [Machine.cellNames, hpath, hop.storedName]
    rfl
  unfold writeAt at h
  cases hact : op.action with
  | deleteKey => exact absurd hact ha
  | createKey =>
    rw [hact, hpath] at h
    obtain ⟨-, x, hx⟩ := h
    obtain ⟨b, m₁, happly, hstored, hkeys⟩ := m.apply_createKey op.hive hop.keyPath
    cases happly.symm.trans hx
    refine ⟨(Machine.apply_registry_frame rfl hx).1, fun k => ?_, fun k n => ?_⟩
    · rw [hkeys, Makes, hact, Bool.or_eq_true, decide_eq_true_iff, or_comm]
      simp [key]
    · rw [hstored, valueAfter, setting?, hact, ite_self]
  | setValue =>
    rw [hact, hnames] at h
    cases hv : op.resolveValue with
    | error f =>
      rw [hv] at h
      obtain ⟨-, rfl⟩ := h
      exact changes_nothing hact (by rw [setting?, hact, hv])
    | ok v? =>
      rw [hv] at h
      cases v? with
      | none =>
        obtain ⟨-, rfl⟩ := h
        exact changes_nothing hact (by rw [setting?, hact, hv])
      | some v =>
        obtain ⟨-, x, hx⟩ := h
        obtain ⟨m₁, happly, hstored, hkeys⟩ := m.apply_setValue op.hive hop.keyPath hop.storedName v
        cases happly.symm.trans hx
        refine ⟨(Machine.apply_registry_frame rfl hx).1, fun k => ?_, fun k n => ?_⟩
        · rw [hkeys, Makes, setting?, hact, hv, Bool.or_eq_true, decide_eq_true_iff, or_comm]
          simp [key]
        · rw [hstored, valueAfter, setting?, hact, hv]
          rfl
  | deleteValue =>
    rw [hact, hnames] at h
    obtain ⟨-, x, hx⟩ := h
    obtain ⟨b, m₁, happly, hstored, hkeys⟩ :=
      m.apply_deleteValue op.hive hop.keyPath hop.storedName
    cases happly.symm.trans hx
    refine ⟨(Machine.apply_registry_frame rfl hx).1, fun k => ?_, fun k n => ?_⟩
    · rw [hkeys]
      simp [Makes, setting?, hact]
    · rw [hstored, valueAfter, hact]
      rfl

/-- The keys after an operation has been restored from a note. -/
theorem keys_of_restored (hop : op.Textual) (ha : op.action ≠ .deleteKey)
    (h : Engine.Restored op c m m') :
    m'.settings = m.settings ∧ ∀ k, m'.hasKey k = true ↔
      if op.action = .createKey then
        m.hasKey k = true ∧ (c.existed = true ∨ Machine.atOrBelow op.key.1 op.key.2 k = false)
      else m.hasKey k = true ∨ op.key = k ∧ c.content ≠ none := by
  cases hact : op.action with
  | deleteKey => exact absurd hact ha
  | createKey =>
    rw [Engine.Restored, Engine.restoringWrite, hact] at h
    cases hc : c.existed with
    | true =>
      rw [hc] at h
      obtain rfl : m' = m := h
      exact ⟨rfl, fun k => by simp⟩
    | false =>
      rw [hc] at h
      obtain ⟨x, hx⟩ := h
      obtain ⟨b, m₁, happly, -, hkeys⟩ := m.apply_deleteKey op.hive hop.keyPath
      cases happly.symm.trans hx
      refine ⟨(Machine.apply_registry_frame rfl hx).1, fun k => ?_⟩
      rw [hkeys]
      simp [key, Machine.keyOf, and_comm]
  | setValue | deleteValue =>
    have hwrite := h.value (by simp [hact])
    simp only [reduceCtorEq, if_false]
    cases hc : c.content with
    | none =>
      rw [hc] at hwrite
      obtain ⟨x, hx⟩ := hwrite
      obtain ⟨b, m₁, happly, -, hkeys⟩ := m.apply_deleteValue op.hive hop.keyPath hop.storedName
      cases happly.symm.trans hx
      refine ⟨(Machine.apply_registry_frame rfl hx).1, fun k => ?_⟩
      rw [hkeys]
      simp
    | some v =>
      rw [hc] at hwrite
      obtain ⟨x, hx⟩ := hwrite
      obtain ⟨m₁, happly, -, hkeys⟩ := m.apply_setValue op.hive hop.keyPath hop.storedName v
      cases happly.symm.trans hx
      refine ⟨(Machine.apply_registry_frame rfl hx).1, fun k => ?_⟩
      rw [hkeys, Bool.or_eq_true, decide_eq_true_iff, or_comm]
      simp [key]

end RegistryOperation

/-! ## Which keys are left -/

section

variable (ops : List RegistryOperation) (m₀ : Machine)

/-- A key is there when the first operations have run. -/
def KeyAfter (i : Nat) (k : Hive × String) : Prop :=
  m₀.hasKey k = true ∨ ∃ op ∈ ops.take i, op.Makes k

/-- What stands under a value name when the first operations have run. -/
def valueAfter (i : Nat) (k : Hive × String) (n : String) : Option (Option RegistryValue) :=
  (ops.take i).foldl (fun v op => op.valueAfter k n v) (m₀.stored k n)

/-- The operation at a position has found its key missing and made it, so that restoring it
removes this key and all below it. -/
def Removes (i : Nat) (k : Hive × String) : Prop :=
  ∃ op, ops[i]? = some op ∧ op.action = .createKey ∧ ¬KeyAfter ops m₀ i op.key ∧
    Machine.atOrBelow op.key.1 op.key.2 k = true

/-- The operation at a position has found a value in its key that is shown, so that
restoring it puts a value there. -/
def PutsBack (i : Nat) (k : Hive × String) : Prop :=
  ∃ op, ops[i]? = some op ∧ op.action ≠ .createKey ∧ op.key = k ∧ k ∉ m₀.denied ∧
    (valueAfter ops m₀ i k op.name).join ≠ none

/-- A key that was missing is left behind: an operation makes it, and after each removal of it a
value is put back there. -/
def LeavesKey (k : Hive × String) : Prop :=
  m₀.hasKey k = false ∧ (∃ op ∈ ops, op.Makes k) ∧
    ∀ i, Removes ops m₀ i k → ∃ j < i, PutsBack ops m₀ j k

/-- A key is there when all operations have run and those from a position on are restored. -/
def KeyStands (i : Nat) (k : Hive × String) : Prop :=
  m₀.hasKey k = true ∨ (∃ op ∈ ops, op.Makes k) ∧
    ∀ j ≥ i, Removes ops m₀ j k → ∃ l, i ≤ l ∧ l < j ∧ PutsBack ops m₀ l k

end

section

variable {ops : List RegistryOperation} {m₀ : Machine} {i : Nat} {op : RegistryOperation}
  {k : Hive × String}

theorem keyAfter_succ (hi : ops[i]? = some op) :
    KeyAfter ops m₀ (i + 1) k ↔ KeyAfter ops m₀ i k ∨ op.Makes k := by
  rw [KeyAfter, KeyAfter, List.take_add_one, hi, or_assoc]
  simp [or_and_right, exists_or]

theorem valueAfter_succ (hi : ops[i]? = some op) (n : String) :
    valueAfter ops m₀ (i + 1) k n = op.valueAfter k n (valueAfter ops m₀ i k n) := by
  rw [valueAfter, List.take_add_one, hi, List.foldl_append]
  rfl

/-- A value stands in a key that was missing only when an operation has made the key. -/
theorem makes_of_valueAfter (hk : m₀.hasKey k = false) {n : String}
    (h : valueAfter ops m₀ i k n ≠ none) : ∃ op ∈ ops, op.Makes k := by
  by_contra hnone
  push Not at hnone
  have hstill : ∀ i, valueAfter ops m₀ i k n = none := by
    intro i
    induction i with
    | zero => exact Machine.stored_of_not_hasKey hk n
    | succ i ih =>
      cases hi : ops[i]? with
      | none =>
        rw [valueAfter, List.take_of_length_le (Nat.le_succ_of_le (List.getElem?_eq_none_iff.mp hi)),
          ← List.take_of_length_le (List.getElem?_eq_none_iff.mp hi)]
        exact ih
      | some op =>
        rw [valueAfter_succ hi, ih, RegistryOperation.valueAfter]
        split
        · next hat =>
          have hset : op.setting? = none := by
            by_contra hset
            exact hnone op (List.mem_of_getElem? hi) ⟨hat.1.symm, .inr hset⟩
          rw [hset]
          cases op.action <;> rfl
        · rfl
  exact h (hstill i)

/-- When nothing is restored yet, all keys that operations have made are there. -/
theorem keyStands_all : KeyStands ops m₀ ops.length k ↔ KeyAfter ops m₀ ops.length k := by
  rw [KeyStands, KeyAfter, List.take_length]
  refine or_congr_right ⟨And.left, fun h => ⟨h, fun j hj hremoves => ?_⟩⟩
  obtain ⟨op, hop, -⟩ := hremoves
  rw [List.getElem?_eq_none hj] at hop
  cases hop

theorem keyStands_zero :
    KeyStands ops m₀ 0 k ↔ m₀.hasKey k = true ∨ LeavesKey ops m₀ k := by
  rw [KeyStands, LeavesKey]
  cases hk : m₀.hasKey k <;> simp

/-- An operation other than `createKey` puts its own key back and removes none. -/
theorem keyStands_of_value (hi : ops[i]? = some op) (ha : op.action ≠ .createKey) :
    KeyStands ops m₀ i k ↔ KeyStands ops m₀ (i + 1) k ∨
      op.key = k ∧ k ∉ m₀.denied ∧ (valueAfter ops m₀ i k op.name).join ≠ none := by
  have hremoves : ∀ k, ¬Removes ops m₀ i k := by
    rintro k ⟨op', hop', hcreate, -⟩
    cases hi.symm.trans hop'
    exact ha hcreate
  have hputs : ∀ {k}, PutsBack ops m₀ i k ↔
      op.key = k ∧ k ∉ m₀.denied ∧ (valueAfter ops m₀ i k op.name).join ≠ none := by
    intro k
    constructor
    · rintro ⟨op', hop', -, hrest⟩
      cases hi.symm.trans hop'
      exact hrest
    · exact fun h => ⟨op, hi, ha, h⟩
  rw [← hputs]
  constructor
  · rintro (hk | ⟨hmakes, hall⟩)
    · exact .inl (.inl hk)
    · by_cases hput : PutsBack ops m₀ i k
      · exact .inr hput
      · refine .inl (.inr ⟨hmakes, fun j hj hremove => ?_⟩)
        obtain ⟨l, hil, hlj, hl⟩ := hall j (by omega) hremove
        have hne : l ≠ i := fun e => hput (e ▸ hl)
        exact ⟨l, by omega, hlj, hl⟩
  · rintro ((hk | ⟨hmakes, hall⟩) | hput)
    · exact .inl hk
    · refine .inr ⟨hmakes, fun j hj hremove => ?_⟩
      have hne : j ≠ i := fun e => hremoves k (e ▸ hremove)
      obtain ⟨l, hil, hlj, hl⟩ := hall j (by omega) hremove
      exact ⟨l, by omega, hlj, hl⟩
    · cases hk : m₀.hasKey k with
      | true => exact .inl hk
      | false =>
        have hvalue := (hputs.mp hput).2.2
        refine .inr ⟨makes_of_valueAfter hk fun h => hvalue (by rw [h]; rfl), fun j hj hremove => ?_⟩
        have hne : j ≠ i := fun e => hremoves k (e ▸ hremove)
        exact ⟨i, Nat.le_refl i, by omega, hput⟩

/-- A `createKey` removes its key and all below when it has made the key. -/
theorem keyStands_of_create (hroot : m₀.Rooted) (hi : ops[i]? = some op)
    (ha : op.action = .createKey) :
    KeyStands ops m₀ i k ↔ KeyStands ops m₀ (i + 1) k ∧
      (KeyAfter ops m₀ i op.key ∨ Machine.atOrBelow op.key.1 op.key.2 k = false) := by
  have hputs : ∀ k, ¬PutsBack ops m₀ i k := by
    rintro k ⟨op', hop', hvalue, -⟩
    cases hi.symm.trans hop'
    exact hvalue ha
  have hremoves : ∀ {k}, Removes ops m₀ i k ↔
      ¬(KeyAfter ops m₀ i op.key ∨ Machine.atOrBelow op.key.1 op.key.2 k = false) := by
    intro k
    rw [not_or, Bool.not_eq_false]
    constructor
    · rintro ⟨op', hop', -, hrest⟩
      cases hi.symm.trans hop'
      exact hrest
    · exact fun h => ⟨op, hi, ha, h⟩
  have hspared : m₀.hasKey k = true →
      KeyAfter ops m₀ i op.key ∨ Machine.atOrBelow op.key.1 op.key.2 k = false := by
    -- below a missing key nothing was stored
    intro hk
    by_contra hremove
    obtain ⟨hmissing, hbelow⟩ := not_or.mp hremove
    have hfree : m₀.hasKey op.key = false := Bool.eq_false_iff.mpr fun h => hmissing (.inl h)
    rw [hroot _ _ k hfree ((Bool.not_eq_false _).mp hbelow)] at hk
    cases hk
  constructor
  · rintro (hk | ⟨hmakes, hall⟩)
    · exact ⟨.inl hk, hspared hk⟩
    · have hnot : ¬Removes ops m₀ i k := fun hremove => by
        obtain ⟨l, hil, hli, -⟩ := hall i (Nat.le_refl i) hremove
        omega
      refine ⟨.inr ⟨hmakes, fun j hj hremove => ?_⟩, not_not.mp (hremoves.not.mp hnot)⟩
      obtain ⟨l, hil, hlj, hl⟩ := hall j (by omega) hremove
      have hne : l ≠ i := fun e => hputs k (e ▸ hl)
      exact ⟨l, by omega, hlj, hl⟩
  · rintro ⟨hk | ⟨hmakes, hall⟩, hspares⟩
    · exact .inl hk
    · refine .inr ⟨hmakes, fun j hj hremove => ?_⟩
      have hne : j ≠ i := fun e => hremoves.mp (e ▸ hremove) hspares
      obtain ⟨l, hil, hlj, hl⟩ := hall j (by omega) hremove
      exact ⟨l, by omega, hlj, hl⟩

end

/-! ## Where operations go -/

/-- The operation at the place where the engine sends it. -/
def RegistryOperation.sentBy (op : RegistryOperation) (e : Engine Machine) : RegistryOperation :=
  { op with
    hive := (e.destination op.hive op.keyPath).1
    keyPath := (e.destination op.hive op.keyPath).2 }

theorem RegistryOperation.Textual.sentBy {op : RegistryOperation} (h : op.Textual)
    (e : Engine Machine) : (op.sentBy e).Textual := by
  refine ⟨?_, h.valueName⟩
  unfold RegistryOperation.sentBy Engine.destination
  dsimp only
  split
  · exact h.keyPath
  · exact ⟨_, rfl⟩

namespace Engine

/-- The engine without a target user. -/
def forCurrentUser (e : Engine Machine) : Engine Machine := { e with targetUser := .text "" }

variable {e : Engine Machine} {s : Session Machine} {slot : Slot} {op : RegistryOperation}
  {m m₀ : Machine}

theorem forCurrentUser_faithful (he : e.mutator = Machine.mutator) : e.forCurrentUser.Faithful where
  readValue := by rw [forCurrentUser, he]; rfl
  keyExists := by rw [forCurrentUser, he]; rfl
  queryService := by rw [forCurrentUser, he]; rfl
  pathExists := by rw [forCurrentUser, he]; rfl
  readText := by rw [forCurrentUser, he]; rfl
  currentUser := rfl
  writes := fun w s => .inr (by rw [write, forCurrentUser, he]; rfl)
  performs := fun w => by rw [write, forCurrentUser, he]; rfl

/-- The engine finds a place for the operation on a machine. -/
def Finds (e : Engine Machine) (m : Machine) (op : RegistryOperation) : Prop :=
  e.placeOn m op.hive op.keyPath = .ok (e.destination op.hive op.keyPath)

/-- The hive of the target user stays where it is found. -/
theorem Finds.of_keys (h : e.Finds m₀ op) (hm₀ : m₀.Willing) (hsettings : m.settings = m₀.settings)
    (hkeys : ∀ k, m₀.hasKey k = true → m.hasKey k = true) : e.Finds m op := by
  unfold Finds placeOn at h ⊢
  split
  · next hredirects =>
    rw [if_pos hredirects, Machine.answer_of_none (hm₀ _)] at h
    rw [Machine.answer_of_none (hm₀.of_settings hsettings _)]
    obtain ⟨there, hthere, h⟩ := ok_of_bind h
    obtain ⟨user, huser, hthere⟩ := ok_of_bind hthere
    cases there with
    | false => cases h
    | true =>
      have hthere : m.hasKey (.users, user) = true := hkeys _ (Except.ok.inj hthere)
      unfold Machine.hasKey at hthere
      rw [huser, ok_bind, hthere]
      rfl
  · rfl

/-- An operation is run where it is sent. -/
theorem runRegistry_sent (he : e.mutator = Machine.mutator) (h : e.Finds s.core.machine op) :
    (e.runRegistry slot op).on s = (e.forCurrentUser.runRegistry slot (op.sentBy e)).on s := by
  have hlocal := (forCurrentUser_faithful he).toWorksOn.resolve_on (s := s)
  rw [runRegistry, Act.on_bind, resolve_on he, h, runRegistry, Act.on_bind, hlocal]
  rfl

/-- An operation is restored where it is sent. -/
theorem restoreRegistry_sent (he : e.mutator = Machine.mutator) (h : e.Finds s.core.machine op) :
    (e.restoreRegistry slot op).on s = (e.forCurrentUser.restoreRegistry slot (op.sentBy e)).on s := by
  have hlocal := (forCurrentUser_faithful he).toWorksOn.resolve_on (s := s)
  rw [restoreRegistry, restoreRegistry, Act.on_bind, Act.on_bind]
  have hsame : (captured? registryPart slot : Work Machine _).on s =
      (.ok (Assoc.get? slot s.core.memory.registry), s) := rfl
  rw [hsame]
  cases Assoc.get? slot s.core.memory.registry with
  | none => rfl
  | some c =>
    dsimp only
    rw [Act.on_bind, resolve_on he, h, Act.on_bind, hlocal]
    rfl

/-- Running an operation that removes no key notes what is seen and then makes its change. -/
theorem runRegistry_changes (slot : Slot) (he : e.mutator = Machine.mutator)
    (hm : s.core.machine.Willing) (hop : op.Textual) (ha : op.action ≠ .deleteKey)
    (hstops : op.stops = false) (hfinds : e.Finds s.core.machine op) :
    ∃ r s', (e.runRegistry slot op).on s = (r, s') ∧ goesOn r = true ∧
      s'.core.memory = (notedAs s.core slot ((op.sentBy e).seen s.core.machine)).memory ∧
      (op.sentBy e).Changes s.core.machine s'.core.machine := by
  have hlocal := forCurrentUser_faithful he
  obtain ⟨r, s', hs', -, hgo, hcore⟩ :=
    runRegistry_seen hlocal.toWorksOn slot hm (hop.sentBy e)
  have hyields : Yields s.core.machine (e.forCurrentUser.runRegistry slot (op.sentBy e)) _ :=
    runRegistry_carries (e := e.forCurrentUser) he hm (op.sentBy e)
  have hcarries := hyields s rfl
  have hplace : e.forCurrentUser.placeOn s.core.machine (op.sentBy e).hive (op.sentBy e).keyPath =
      .ok ((op.sentBy e).hive, (op.sentBy e).keyPath) := by
    simp [placeOn, redirects, destination, forCurrentUser, Datum.truthy]
    rfl
  rw [hplace, ok_bind, hs'] at hcarries
  rw [runRegistry_sent he hfinds]
  refine ⟨r, s', hs', hgo hlocal (RegistryOperation.stops_eq_false.mp hstops), ?_,
    RegistryOperation.changes_of_carries (hop.sentBy e) ha hcarries⟩
  rcases hcore with hcore | ⟨w, x, m', -, -, hcore⟩ <;> rw [hcore]

end Engine

/-! ## Runs -/

/-- The operations are on the registry, restoring can undo them, and no payload stops a run. -/
structure Tweak.RegistryOnly (t : Tweak) : Prop extends t.PlainRegistry where
  payloads : ∀ op ∈ t.operations.registry, op.stops = false
  services : t.operations.services = []
  scripts : t.operations.scripts = []
  files : t.operations.files = []
  withoutUndo : t.undo? = none

/-- The registry operations of a tweak, each at the place where the engine sends it. -/
def Tweak.sentBy (t : Tweak) (e : Engine Machine) : List RegistryOperation :=
  t.operations.registry.map (·.sentBy e)

/-- A note tells of the key of a `createKey` whether it was there before the operation at a
position, and otherwise whether a value was shown. -/
def Tells (ops : List RegistryOperation) (m₀ : Machine) (i : Nat) (op : RegistryOperation)
    (c : RegistryCapture) : Prop :=
  if op.action = .createKey then c.existed = true ↔ KeyAfter ops m₀ i op.key
  else c.content ≠ none ↔
    op.key ∉ m₀.denied ∧ (valueAfter ops m₀ i op.key op.name).join ≠ none

/-- The notes of the first operations tell what was there, and the others have none. -/
structure KeysNoted (t : Tweak) (ops : List RegistryOperation) (m₀ : Machine) (i : Nat)
    (c : Memory) : Prop where
  noted : ∀ j op, j < i → ops[j]? = some op →
    ∃ n, c.registryNote t.id j = some n ∧ Tells ops m₀ j op n
  fresh : ∀ j ≥ i, c.registryNote t.id j = none

/-- The first operations have run and the others have not. -/
structure KeysMade (t : Tweak) (ops : List RegistryOperation) (m₀ : Machine) (i : Nat)
    (c : Core Machine) : Prop where
  settings : c.machine.settings = m₀.settings
  keys : ∀ k, c.machine.hasKey k = true ↔ KeyAfter ops m₀ i k
  values : ∀ k n, c.machine.stored k n = valueAfter ops m₀ i k n
  notes : KeysNoted t ops m₀ i c.memory

/-- All operations have run, and those from a position on are restored. -/
structure KeysBack (t : Tweak) (ops : List RegistryOperation) (m₀ : Machine) (i : Nat)
    (c : Core Machine) : Prop where
  settings : c.machine.settings = m₀.settings
  keys : ∀ k, c.machine.hasKey k = true ↔ KeyStands ops m₀ i k
  notes : KeysNoted t ops m₀ i c.memory

section

variable {e : Engine Machine} {t : Tweak} {m₀ m : Machine} {ops : List RegistryOperation} {i : Nat}
  {op : RegistryOperation} {c : Core Machine} {s : Session Machine}

theorem Machine.denied_of_settings (h : m.settings = m₀.settings) : m.denied = m₀.denied :=
  congrArg (·.1) h

/-- What an operation sees of a machine tells what was there. -/
theorem KeysMade.tells (h : KeysMade t ops m₀ i c) (ha : op.action ≠ .deleteKey) :
    Tells ops m₀ i op (op.seen c.machine) := by
  have hvalue : ∀ x, op.cell? = some x → ((op.seen c.machine).content ≠ none ↔
      x.1 ∉ m₀.denied ∧ (valueAfter ops m₀ i x.1 x.2).join ≠ none) := by
    intro x hx
    rw [content_seen hx, Machine.shown_eq, Machine.denied_of_settings h.settings, Machine.content,
      h.values]
    split
    · next hdenied => simp [hdenied]
    · next hdenied => simp [hdenied]
  unfold Tells
  cases hact : op.action with
  | deleteKey => exact absurd hact ha
  | createKey =>
    rw [if_pos rfl, ← h.keys, RegistryOperation.seen, hact]
    rfl
  | setValue | deleteValue =>
    rw [if_neg (by decide)]
    exact hvalue (op.key, op.name) (by rw [RegistryOperation.cell?, hact])

/-- Running the next operation. -/
theorem KeysMade.next (he : e.mutator = Machine.mutator) (hm₀ : m₀.Willing) (ht : t.RegistryOnly)
    (hfinds : ∀ op ∈ t.operations.registry, e.Finds m₀ op)
    (h : KeysMade t (t.sentBy e) m₀ i s.core) (hi : t.operations.registry[i]? = some op) :
    ∃ r s', (e.runRegistry ⟨t.id, .apply, i⟩ op).on s = (r, s') ∧ goesOn r = true ∧
      KeysMade t (t.sentBy e) m₀ (i + 1) s'.core := by
  have hmem := List.mem_of_getElem? hi
  have hsent : (t.sentBy e)[i]? = some (op.sentBy e) := by
    rw [Tweak.sentBy, List.getElem?_map, hi, Option.map_some]
  obtain ⟨r, s', hs', hgo, hmemory, hchanges⟩ := Engine.runRegistry_changes ⟨t.id, .apply, i⟩
    he (hm₀.of_settings h.settings) (ht.textual op hmem) (ht.action op hmem) (ht.payloads op hmem)
    ((hfinds op hmem).of_keys hm₀ h.settings fun k hk => (h.keys k).mpr (.inl hk))
  have hnote : ∀ j, s'.core.memory.registryNote t.id j =
      if j = i then some ((op.sentBy e).seen s.core.machine)
      else s.core.memory.registryNote t.id j := fun j => by
    have hfree : Assoc.get? ⟨t.id, .apply, i⟩ s.core.memory.registry = none :=
      h.notes.fresh i (Nat.le_refl i)
    rw [Memory.registryNote, hmemory, Engine.notedAs, Captures.get?_keep_index, hfree]
    rfl
  refine ⟨r, s', hs', hgo, hchanges.settings.trans h.settings, fun k => ?_, fun k n => ?_,
    fun j op' hj hop' => ?_, fun j hj => ?_⟩
  · rw [hchanges.keys, h.keys, keyAfter_succ hsent]
  · rw [hchanges.values, h.values, valueAfter_succ hsent]
  · rw [hnote]
    by_cases hji : j = i
    · subst hji
      cases hsent.symm.trans hop'
      rw [if_pos rfl]
      exact ⟨_, rfl, h.tells (ht.action op hmem)⟩
    · rw [if_neg hji]
      exact h.notes.noted j op' (by omega) hop'
  · rw [hnote, if_neg (by omega)]
    exact h.notes.fresh j (by omega)

/-- Restoring the last operation that is not restored. -/
theorem KeysBack.back (he : e.mutator = Machine.mutator) (hm₀ : m₀.Willing) (hroot : m₀.Rooted)
    (ht : t.RegistryOnly) (hfinds : ∀ op ∈ t.operations.registry, e.Finds m₀ op)
    (h : KeysBack t (t.sentBy e) m₀ (i + 1) s.core) (hi : t.operations.registry[i]? = some op) :
    ∃ s', (e.restoreRegistry ⟨t.id, .apply, i⟩ op).on s = (.ok none, s') ∧
      KeysBack t (t.sentBy e) m₀ i s'.core := by
  have hmem := List.mem_of_getElem? hi
  have hsent : (t.sentBy e)[i]? = some (op.sentBy e) := by
    rw [Tweak.sentBy, List.getElem?_map, hi, Option.map_some]
  have ha : (op.sentBy e).action ≠ .deleteKey := ht.action op hmem
  have hop := (ht.textual op hmem).sentBy e
  obtain ⟨n, hn, htells⟩ := h.notes.noted i _ (Nat.lt_succ_self i) hsent
  obtain ⟨s', m', hs', hrestored, hcore⟩ := Engine.restoreRegistry_on
    (Engine.forCurrentUser_faithful he) ⟨t.id, .apply, i⟩ (hm₀.of_settings h.settings) hop hn
  obtain ⟨hsettings, hkeys⟩ := RegistryOperation.keys_of_restored hop ha hrestored
  rw [Engine.restoreRegistry_sent he
    ((hfinds op hmem).of_keys hm₀ h.settings fun k hk => (h.keys k).mpr (.inl hk))]
  have hnote : ∀ j, s'.core.memory.registryNote t.id j =
      if j = i then none else s.core.memory.registryNote t.id j := fun j => by
    rw [Memory.registryNote, hcore]
    exact Captures.get?_erase_index t.id i j s.core.memory.registry
  refine ⟨s', hs', ?_, fun k => ?_, fun j op' hj hop' => ?_, fun j hj => ?_⟩
  · rw [hcore]
    exact hsettings.trans h.settings
  · rw [hcore, hkeys, h.keys]
    unfold Tells at htells
    split
    · next hact =>
      rw [if_pos hact] at htells
      rw [keyStands_of_create hroot hsent hact, htells]
    · next hact =>
      rw [if_neg hact] at htells
      rw [keyStands_of_value hsent hact, htells]
      refine or_congr_right (and_congr_right fun hkey => ?_)
      rw [hkey]
  · rw [hnote, if_neg (by omega)]
    exact h.notes.noted j op' (by omega) hop'
  · rw [hnote]
    split
    · rfl
    · exact h.notes.fresh j (by omega)

/-- When all operations have run, restoring begins. -/
theorem KeysMade.turn (h : KeysMade t ops m₀ ops.length c) : KeysBack t ops m₀ ops.length c :=
  ⟨h.settings, fun k => by rw [h.keys, keyStands_all], h.notes⟩

theorem KeysMade.of_scene {s' : Session Machine} (h : KeysMade t ops m₀ i s.core)
    (hscene : s'.scene = s.scene) : KeysMade t ops m₀ i s'.core := by
  obtain ⟨hmachine, hmemory⟩ := Prod.mk.inj hscene
  exact ⟨hmachine ▸ h.settings, hmachine ▸ h.keys, hmachine ▸ h.values, hmemory ▸ h.notes⟩

/-- When all operations have noted something, everything is captured. -/
theorem KeysMade.covers (ht : t.RegistryOnly)
    (h : KeysMade t (t.sentBy e) m₀ (t.sentBy e).length s.core) : s.memory.covers t = true := by
  rw [Memory.covers, ht.services, ht.files]
  rw [Bool.and_eq_true_iff, Bool.and_eq_true_iff]
  refine ⟨⟨List.all_eq_true.mpr fun j hj => ?_, rfl⟩, rfl⟩
  have hj : j < (t.sentBy e).length := by
    rw [Tweak.sentBy, List.length_map]
    exact List.mem_range.mp hj
  obtain ⟨n, hn, -⟩ := h.notes.noted j _ hj (List.getElem?_eq_getElem hj)
  have hnote : Assoc.get? ⟨t.id, .apply, j⟩ s.memory.registry = some n := hn
  rw [Assoc.has, hnote]
  rfl

/-- The steps of a tweak of registry operations. -/
theorem runSteps_registry (ht : t.RegistryOnly) (e : Engine Machine) :
    e.runSteps t.id .apply t.operations = .ok
      (Engine.stepsFor t.id .apply t.operations.registry
        fun slot op => ⟨op.describe, e.runRegistry slot op⟩) := by
  rw [Engine.runSteps, ht.services, ht.scripts, ht.files]
  refine congrArg Except.ok ?_
  simp [Engine.stepsFor]

/-- The restoring steps of a tweak of registry operations. -/
theorem restoreSteps_registry (ht : t.RegistryOnly) (e : Engine Machine) :
    e.restoreSteps t.id t.operations = .ok
      (Engine.stepsFor t.id .apply t.operations.registry
        fun slot op => ⟨Engine.undoing "Restore" op.describe, e.restoreRegistry slot op⟩).reverse := by
  rw [Engine.restoreSteps, ht.services, ht.scripts, ht.files]
  refine congrArg Except.ok ?_
  simp [Engine.stepsFor]

/-- A run through all operations. -/
theorem runKeys_leads (he : e.mutator = Machine.mutator) (hm₀ : m₀.Willing) (ht : t.RegistryOnly)
    (hfinds : ∀ op ∈ t.operations.registry, e.Finds m₀ op) :
    Engine.Leads (fun _ => false)
      (Engine.stepsFor t.id .apply t.operations.registry
        fun slot op => ⟨op.describe, e.runRegistry slot op⟩)
      (KeysMade t (t.sentBy e) m₀ 0) (KeysMade t (t.sentBy e) m₀ (t.sentBy e).length)
      fun _ => False := by
  rw [Tweak.sentBy, List.length_map]
  refine Engine.leads_upward (fun _ _ => nofun) fun i op hi s hs => ?_
  obtain ⟨r, s', hs', hgo, hnext⟩ := hs.next he hm₀ ht hfinds hi
  dsimp only
  rw [hs', hgo]
  exact hnext

/-- A run back through all operations. -/
theorem restoreKeys_leads (he : e.mutator = Machine.mutator) (hm₀ : m₀.Willing)
    (hroot : m₀.Rooted) (ht : t.RegistryOnly)
    (hfinds : ∀ op ∈ t.operations.registry, e.Finds m₀ op) :
    Engine.Leads (fun _ => false)
      (Engine.stepsFor t.id .apply t.operations.registry
        fun slot op => ⟨Engine.undoing "Restore" op.describe, e.restoreRegistry slot op⟩).reverse
      (KeysBack t (t.sentBy e) m₀ (t.sentBy e).length) (KeysBack t (t.sentBy e) m₀ 0)
      fun _ => False := by
  rw [Tweak.sentBy, List.length_map]
  refine Engine.leads_downward (fun _ _ => nofun) fun i op hi s hs => ?_
  obtain ⟨s', hs', hprev⟩ := hs.back he hm₀ hroot ht hfinds hi
  dsimp only
  rw [hs']
  exact hprev

/-- A run back when nothing is noted. -/
theorem restoreKeys_idle (e : Engine Machine) (c₀ : Core Machine)
    (hfresh : ∀ i, c₀.memory.registryNote t.id i = none) :
    Engine.Leads (fun _ => false)
      (Engine.stepsFor t.id .apply t.operations.registry
        fun slot op => ⟨Engine.undoing "Restore" op.describe, e.restoreRegistry slot op⟩).reverse
      (· = c₀) (· = c₀) fun _ => False :=
  Engine.leads_downward (I := fun _ => (· = c₀)) (fun _ _ => nofun) fun i op _ s hs => by
    have hnone : Assoc.get? ⟨t.id, .apply, i⟩ s.core.memory.registry = none := by
      rw [hs]
      exact hfresh i
    dsimp only
    rw [Engine.restoreRegistry_on_none _ hnone]
    exact hs

/-! ## Calls -/

/-- Looking whether the tweak is applied says yes. -/
def Engine.FindsApplied (e : Engine Machine) (t : Tweak) (s : Session Machine) : Prop :=
  ((onHost (e.alreadyApplied t)).on s).1 = .ok true

/-- **The keys that are left.**  Applying a tweak of registry operations and reverting it loses
no key, and it leaves a key that was missing just when the tweak was not found applied, one of
its operations makes the key, and after each removal of the key a value is put back there. -/
theorem keys_after_revert (he : e.mutator = Machine.mutator) (hlook : e.ReadOnlyDetector)
    (ht : t.RegistryOnly) (hr : t.isReversible = true) (hmay : e.mayRun t.operations = true)
    (hm : s.core.machine.Willing) (hroot : s.core.machine.Rooted)
    (hfinds : ∀ op ∈ t.operations.registry, e.Finds s.core.machine op)
    (hnoted : ∀ i, s.memory.registryNote t.id i = none)
    (hsaved : ∀ st, s.store = some st → Assoc.get? t.key st.index = none) (k : Hive × String) :
    ((e.revert (fun _ => false) t).on
        ((e.apply (fun _ => false) t).on s).2).2.core.machine.hasKey k = true ↔
      s.core.machine.hasKey k = true ∨
        ¬e.FindsApplied t s ∧ LeavesKey (t.sentBy e) s.core.machine k := by
  have hrevert : e.mayRun t.revertOperations = true := by
    rw [Tweak.revertOperations, ht.withoutUndo]
    exact hmay
  have hkept := Engine.alreadyApplied_keeps hlook t s
  obtain ⟨found, h', hanswer⟩ := Engine.alreadyApplied_returns e t s.host
  have hdet : (onHost (e.alreadyApplied t)).on s = (.ok found, { s with host := h' }) := by
    rw [onHost, Part.on_lift, hostPart]
    dsimp only
    rw [hanswer]
  rw [hdet] at hkept
  have happlied : e.FindsApplied t s ↔ found = true := by
    rw [Engine.FindsApplied, hdet]
    exact ⟨Except.ok.inj, congrArg _⟩
  rw [happlied]
  cases found with
  | true =>
    -- nothing is noted that could be restored
    have hsame := (apply_core_applied (fun _ => false) hdet).trans hkept
    obtain ⟨s₃, hcore₃, hback, -⟩ := revert_scene (fun _ => false) hrevert hr ht.withoutUndo
      (restoreSteps_registry ht e) fun s₁ hs₁ => by
        obtain ⟨s₂, hs₂, hcore₂⟩ := loadSnapshot_on_unsaved (t := t) (s := s₁) fun st hst =>
          hsaved st ((congrArg Core.store (hs₁.trans hsame)).symm.trans hst)
        exact ⟨s₂, hs₂, hcore₂.trans hs₁⟩
    obtain ⟨r₄, s₄, hrun, ⟨-, hidle⟩ | ⟨-, hnot⟩⟩ := restoreKeys_idle e s.core
      hnoted { success := true, tweakId := t.id } s₃ rfl (hcore₃.trans hsame)
    · rw [hrun] at hback
      have hmachine := (Prod.mk.inj hback).1.trans (congrArg Core.machine hidle)
      rw [hmachine]
      simp
    · exact hnot.elim
  | false =>
    obtain ⟨s₁, hcore₁, happly⟩ := apply_scene_unapplied (fun _ => false) hdet hkept hmay
      (runSteps_registry ht e) hsaved
    have hstart : KeysMade t (t.sentBy e) s.core.machine 0 s₁.core := by
      rw [hcore₁]
      exact ⟨rfl, fun k => by simp [KeyAfter], fun k n => rfl,
        ⟨fun j _ hj => absurd hj (Nat.not_lt_zero j), fun j _ => hnoted j⟩⟩
    obtain ⟨r₂, s₂, hrun, ⟨-, hall⟩ | ⟨-, hnot⟩⟩ := runKeys_leads he hm ht hfinds
      { success := true, tweakId := t.id } s₁ rfl hstart
    · rw [hrun] at happly
      have hmade := hall.of_scene happly
      obtain ⟨s₃, hcore₃, hback, -⟩ := revert_scene (fun _ => false) hrevert hr ht.withoutUndo
        (restoreSteps_registry ht e) (s := ((e.apply (fun _ => false) t).on s).2) fun s₁ hs₁ => by
          rw [← hs₁] at hmade
          exact ⟨s₁, loadSnapshot_on_covered (hmade.covers ht), hs₁⟩
      obtain ⟨r₄, s₄, hrun', ⟨-, hend⟩ | ⟨-, hnot⟩⟩ := restoreKeys_leads he hm hroot ht hfinds
        { success := true, tweakId := t.id } s₃ rfl (hcore₃.symm ▸ hmade.turn)
      · rw [hrun'] at hback
        rw [(Prod.mk.inj hback).1]
        refine (hend.keys k).trans (keyStands_zero.trans (or_congr_right ?_))
        simp
      · exact hnot.elim
    · exact hnot.elim

end

section

/-- Creates a key, sets a value in another missing key, and one in a key that is there. -/
def sampleKeys : Tweak :=
  { id := "t"
    name := .text "T"
    operations :=
      { registry :=
          [{ hive := .currentUser, keyPath := .text "a", action := .createKey },
           { hive := .currentUser, keyPath := .text "b", valueName := .text "v", value := .int 1 },
           { hive := .currentUser, keyPath := .text "demo", valueName := .text "v",
             value := .int 1 }] } }

/-- A session on a machine with one key. -/
def keySession : Session Machine :=
  { host := { machine := { keys := [((.currentUser, "demo"), [])] } } }

theorem sampleKeys_registryOnly : sampleKeys.RegistryOnly where
  textual := by
    simp only [sampleKeys, List.forall_mem_cons, List.not_mem_nil, false_implies, implies_true,
      and_true]
    exact ⟨⟨⟨_, rfl⟩, .inl rfl⟩, ⟨⟨_, rfl⟩, .inr ⟨_, rfl⟩⟩, ⟨⟨_, rfl⟩, .inr ⟨_, rfl⟩⟩⟩
  action := by decide
  payloads := by decide
  services := rfl
  scripts := rfl
  files := rfl
  withoutUndo := rfl

theorem keySession_hasKey {k : Hive × String} :
    keySession.core.machine.hasKey k = true ↔ k = (.currentUser, "demo") := by
  by_cases h : (Hive.currentUser, "demo") = k
  · simp [← h, Machine.hasKey, keySession, core, Assoc.has, Assoc.get?]
  · simp [h, Ne.symm h, Machine.hasKey, keySession, core, Assoc.has, Assoc.get?]

theorem keySession_rooted : keySession.core.machine.Rooted := by
  intro hive path k hmissing hbelow
  by_contra hk
  rw [Bool.not_eq_false, keySession_hasKey] at hk
  subst hk
  rw [Machine.atOrBelow, Bool.and_eq_true, Bool.or_eq_true, beq_iff_eq, beq_iff_eq] at hbelow
  obtain ⟨rfl, rfl | hpre⟩ := hbelow
  · exact Bool.eq_false_iff.mp hmissing (keySession_hasKey.mpr rfl)
  · have hmem : '\\' ∈ "demo".toList := (List.isPrefixOf_iff_prefix.mp hpre).subset (by simp)
    exact absurd hmem (by decide)

/-- The sample leaves the key in which it sets a value. -/
theorem sampleKeys_leaves (k : Hive × String) :
    LeavesKey sampleKeys.operations.registry keySession.core.machine k ↔ k = (.currentUser, "b") := by
  constructor
  · rintro ⟨hmissing, ⟨op, hop, hkey, -⟩, hback⟩
    simp only [sampleKeys, List.mem_cons, List.not_mem_nil, or_false] at hop
    rcases hop with rfl | rfl | rfl
    · -- restoring the first operation removes its key, and nothing is restored after it
      have hremoves : Removes sampleKeys.operations.registry keySession.core.machine 0 k := by
        refine ⟨_, rfl, rfl, ?_, ?_⟩
        · rw [KeyAfter, List.take_zero]
          rintro (h | ⟨_, h, -⟩)
          · cases h
          · cases h
        · rw [← hkey]
          decide
      obtain ⟨j, hj, -⟩ := hback 0 hremoves
      exact absurd hj (Nat.not_lt_zero j)
    · exact hkey.symm
    · rw [← hkey] at hmissing
      cases hmissing
  · rintro rfl
    refine ⟨rfl, ⟨_, List.mem_cons_of_mem _ List.mem_cons_self, rfl, .inr (by decide)⟩,
      fun i hremoves => ?_⟩
    obtain ⟨op, hop, hact, -, hbelow⟩ := hremoves
    have hmem := List.mem_of_getElem? hop
    simp only [sampleKeys, List.mem_cons, List.not_mem_nil, or_false] at hmem
    rcases hmem with rfl | rfl | rfl
    · cases hbelow
    · cases hact
    · cases hact

/-- Of the keys that the sample makes, the one that it creates goes and the one in which it sets
a value stays. -/
theorem sample_keys_left :
    sampleKeys.RegistryOnly ∧ sampleKeys.isReversible = true ∧
      Engine.mayRun { mutator := Machine.mutator } sampleKeys.operations = true ∧
      keySession.core.machine.Willing ∧ keySession.core.machine.Rooted ∧
      (∀ op ∈ sampleKeys.operations.registry,
        Engine.Finds { mutator := Machine.mutator } keySession.core.machine op) ∧
      (∀ i, keySession.memory.registryNote sampleKeys.id i = none) ∧ keySession.store = none ∧
      ∀ k, ((Engine.revert { mutator := Machine.mutator } (fun _ => false) sampleKeys).on
          ((Engine.apply { mutator := Machine.mutator } (fun _ => false) sampleKeys).on
            keySession).2).2.core.machine.hasKey k = true ↔
        k = (.currentUser, "demo") ∨ k = (.currentUser, "b") := by
  have hfinds : ∀ op ∈ sampleKeys.operations.registry,
      Engine.Finds { mutator := Machine.mutator } keySession.core.machine op := by
    simp only [sampleKeys, List.forall_mem_cons, List.not_mem_nil, false_implies, implies_true,
      and_true]
    exact ⟨rfl, rfl, rfl⟩
  refine ⟨sampleKeys_registryOnly, rfl, rfl, fun _ => rfl, keySession_rooted, hfinds, fun _ => rfl,
    rfl, fun k => ?_⟩
  refine (keys_after_revert rfl (Engine.readOnlyDetector_of_none rfl) sampleKeys_registryOnly rfl rfl
    (fun _ => rfl) keySession_rooted hfinds (fun _ => rfl) nofun k).trans ?_
  have hsought : ¬Engine.FindsApplied { mutator := Machine.mutator } sampleKeys keySession := nofun
  exact or_congr keySession_hasKey ((and_iff_right hsought).trans (sampleKeys_leaves k))

/-- Sets a value in a missing key. -/
def sampleValue : Tweak :=
  { id := "t"
    name := .text "T"
    operations :=
      { registry :=
          [{ hive := .currentUser, keyPath := .text "b", valueName := .text "v", value := .int 1 }] } }

/-- The note of the value says that its key was missing, and reverting leaves the key. -/
theorem sample_key_stays :
    sampleValue.undo? = none ∧ keySession.core.machine.Willing ∧ keySession.core.machine.Rooted ∧
      keySession.core.machine.hasKey (.currentUser, "b") = false ∧
      (((Engine.apply { mutator := Machine.mutator } (fun _ => false) sampleValue).on
        keySession).2.memory.registryNote "t" 0).map RegistryCapture.keyExisted = some false ∧
      ((Engine.revert { mutator := Machine.mutator } (fun _ => false) sampleValue).on
        ((Engine.apply { mutator := Machine.mutator } (fun _ => false) sampleValue).on
          keySession).2).2.core.machine.hasKey (.currentUser, "b") = true :=
  ⟨rfl, fun _ => rfl, keySession_rooted, by decide +kernel⟩

end

end TweakEngine
