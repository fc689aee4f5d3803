/-
# Stored values and their typed form

The platform answers a question about a value with its data and the number of its type
(`StoredValue.answered`), and it has one odd answer: bytes that are none come as no data at all.
Reading makes a typed value of the answer and writing stores a typed value; a change of a value
captures what reading gave, and reverting writes that back.

Of every value reading gives the typed value, and writing this stores what was there, with the one
exception of bytes that are none (`StoredValue.value_answered`): they are read as a value without
content, which reverting takes for a missing value.  So a change of a value that was there is
reverted, and the value is as before or, if it was bytes and there were none, gone
(`Engine.value_kept`).
-/

import TweakEngine.Proofs.CoercedValues
import TweakEngine.Proofs.SingleSteps
import TweakEngine.Proofs.SubtreeDeletion

namespace TweakEngine

/-! ## The platform's answers -/

namespace StoredValue

/-- A value as the platform answers it: bytes that are none come as no data. -/
def answered (v : RegistryValue) : StoredValue :=
  if v = .binary [] then ⟨.null, typeOf .binary⟩ else ofValue v

theorem kind?_typeOf (kind : ValueKind) : kind? (typeOf kind) = some kind := by
  cases kind <;> rfl

/-- A list is read like the tuple of its items. -/
theorem coerce_data (v : RegistryValue) :
    RegistryValue.coerce (ofValue v).data v.kind = .ok (some v) := by
  have hplain := congrArg (some <$> ·) v.coercePlain_payload
  cases v <;> exact hplain

/-- What reading makes of the answer about a value. -/
def readBack (v : RegistryValue) : Option RegistryValue := if v = .binary [] then none else some v

/-- **Reading an answer** gives the value, unless it is bytes and there are none. -/
theorem value_answered (v : RegistryValue) : (answered v).value = .ok (readBack v) := by
  unfold answered readBack
  split
  · rfl
  · rw [value, ofValue, kind?_typeOf]
    exact coerce_data v

theorem ofValue_eq {v : RegistryValue} (hv : v ≠ .binary []) : ofValue v = answered v := by
  rw [answered, if_neg hv]

/-- A value that is read is stored as it was. -/
theorem map_readBack (v : RegistryValue) :
    (readBack v).map ofValue = if v = .binary [] then none else some (answered v) := by
  unfold readBack answered
  split <;> rfl

end StoredValue

/-! ## Values of the registry -/

namespace RegistryTree

variable {t t' t'' : RegistryTree} {k k' : KeyPlace} {n n' : String} {x y : Option StoredValue}

/-- What is stored under a key and a name. -/
def valueAt (t : RegistryTree) (k : KeyPlace) (n : String) : Option StoredValue :=
  (Assoc.get? k t.keys).bind (Assoc.get? n)

/-- One value is put or taken away, no other one changes, and keys may come to it. -/
structure Puts (t : RegistryTree) (k : KeyPlace) (n : String) (x : Option StoredValue)
    (t' : RegistryTree) : Prop where
  values : ∀ k' n', t'.valueAt k' n' = if k' = k ∧ n' = n then x else t.valueAt k' n'
  denied : t'.denied = t.denied
  lasting : ∀ k' ∈ Assoc.keys t.keys, k' ∈ Assoc.keys t'.keys

theorem Puts.refl (h : t.valueAt k n = x) : t.Puts k n x t where
  values k' n' := by
    split
    · next hat => rw [hat.1, hat.2, h]
    · rfl
  denied := rfl
  lasting _ hk := hk

theorem Puts.trans (h : t.Puts k n x t') (h' : t'.Puts k n y t'') : t.Puts k n y t'' where
  values k' n' := by
    rw [h'.values, h.values]
    split <;> rfl
  denied := h'.denied.trans h.denied
  lasting k' hk := h'.lasting k' (h.lasting k' hk)

/-- What is put where it was changes nothing. -/
theorem Puts.values_same (h : t.Puts k n (t.valueAt k n) t') (k' : KeyPlace) (n' : String) :
    t'.valueAt k' n' = t.valueAt k' n' := by
  rw [h.values]
  split
  · next hat => rw [hat.1, hat.2]
  · rfl

/-- New keys hold no values. -/
theorem valueAt_add (t : RegistryTree) (k k' : KeyPlace) (n : String) :
    (t.add k).valueAt k' n = t.valueAt k' n := by
  have hadd : ∀ (paths : List String) (keys : Assoc KeyPlace (Assoc String StoredValue)),
      (Assoc.get? k' (paths.foldl (fun keys path => if Assoc.has (k.1, path) keys then keys
        else Assoc.put (k.1, path) [] keys) keys)).bind (Assoc.get? n) =
          (Assoc.get? k' keys).bind (Assoc.get? n) := by
    intro paths
    induction paths with
    | nil => exact fun _ => rfl
    | cons path paths ih =>
      intro keys
      rw [List.foldl_cons, ih]
      split
      · rfl
      · next hmissing =>
        rw [Assoc.get?_put]
        split
        · next hk =>
          rw [← hk, Option.not_isSome_iff_eq_none.mp hmissing]
          rfl
        · rfl
  exact hadd _ _

theorem puts_put {values : Assoc String StoredValue} (hvalues : Assoc.get? k t.keys = some values)
    (v : StoredValue) : t.Puts k n (some v) (t.putValues k (Assoc.put n v values)) where
  values k' n' := by
    rw [valueAt, putValues, Assoc.get?_put]
    by_cases hk : k = k'
    · subst hk
      rw [if_pos rfl, Option.bind_some, Assoc.get?_put, valueAt, hvalues, Option.bind_some]
      simp only [true_and, eq_comm]
    · rw [if_neg hk, if_neg fun hat => hk hat.1.symm, valueAt]
  denied := rfl
  lasting k' hk' := Assoc.mem_keys_put.mpr (.inr hk')

theorem puts_erase {values : Assoc String StoredValue}
    (hvalues : Assoc.get? k t.keys = some values) :
    t.Puts k n none (t.putValues k (Assoc.erase n values)) where
  values k' n' := by
    rw [valueAt, putValues, Assoc.get?_put]
    by_cases hk : k = k'
    · subst hk
      rw [if_pos rfl, Option.bind_some, Assoc.get?_erase, valueAt, hvalues, Option.bind_some]
      simp only [true_and, eq_comm]
    · rw [if_neg hk, if_neg fun hat => hk hat.1.symm, valueAt]
  denied := rfl
  lasting k' hk' := Assoc.mem_keys_put.mpr (.inr hk')

theorem hasKey_of_mem (h : k ∈ Assoc.keys t.keys) : t.hasKey k = true := by
  obtain ⟨values, hvalues⟩ := Option.isSome_iff_exists.mp (Assoc.has_iff.mpr h)
  rw [hasKey, openKey, hvalues]
  cases t.denied.contains k <;> simp

theorem mem_of_valueAt {v : StoredValue} (h : t.valueAt k n = some v) : k ∈ Assoc.keys t.keys := by
  obtain ⟨values, hvalues, -⟩ := Option.bind_eq_some_iff.mp h
  exact Assoc.has_iff.mp (Option.isSome_of_eq_some hvalues)

theorem openKey_granted {values : Assoc String StoredValue} (hgranted : k ∉ t.denied)
    (hvalues : Assoc.get? k t.keys = some values) : t.openKey k = .ok values := by
  have hdenied : t.denied.contains k = false := by simpa using hgranted
  rw [openKey, hdenied, if_neg Bool.false_ne_true, hvalues]

/-- What setting a value does to a registry. -/
theorem puts_setting (hgranted : k ∉ t.denied) (n : String) (v : StoredValue) :
    ∃ t', (do
        let t ← t.createKey k
        return t.putValues k (Assoc.put n v (← t.openKey k)) : Except Failure RegistryTree) =
          .ok t' ∧ t.Puts k n (some v) t' := by
  have hcreate : t.createKey k = .ok (t.add k) := by
    rw [createKey, if_neg (by simpa using hgranted)]
  obtain ⟨values, hvalues⟩ := Option.isSome_iff_exists.mp
    (Assoc.has_iff.mpr (mem_keys_add.mpr (.inr (covers_self k)) : k ∈ Assoc.keys (t.add k).keys))
  have hopen : (t.add k).openKey k = .ok values := openKey_granted hgranted hvalues
  refine ⟨_, by rw [hcreate, ok_bind, hopen]; rfl, ?_⟩
  have hput := puts_put (n := n) hvalues v
  exact {
    values := fun k' n' => by rw [hput.values, valueAt_add]
    denied := hput.denied
    lasting := fun k' hk' => hput.lasting k' (mem_keys_add.mpr (.inl hk')) }

end RegistryTree

/-! ## Requests about a value -/

namespace WindowsAccess

open RegistryTree

variable {w : WindowsAccess} {h : Host Windows} {hive : Hive} {path name : Datum} {k : KeyPlace}
  {n : String}

/-- The registry that a host holds. -/
abbrev registryOf (h : Host Windows) : RegistryTree := registryPart.get h

theorem readValue_on (hw : w.available = true) (hk : place hive path = .ok k)
    (hn : nameOf name = .ok n) (hgranted : k ∉ (registryOf h).denied) {v : StoredValue}
    {found : Option RegistryValue} (hv : (registryOf h).valueAt k n = some v)
    (hfound : v.value = .ok found) :
    (w.readValue hive path name).on h = (.ok (.found found), h) := by
  obtain ⟨values, hvalues, hget⟩ := Option.bind_eq_some_iff.mp hv
  have hopen : (registryOf h).openKey k = .ok values := openKey_granted hgranted hvalues
  have hasked : (ask fun t => t.openKey k).attempt.on h = (.ok (.ok values), h) := by
    rw [Act.on_attempt, ask_on, hopen]
  rw [readValue, Act.on_bind_of_ok (requireProbe_on hw h), Act.on_bind_result hk,
    Act.on_bind_result hn, Act.on_bind_of_ok hasked]
  dsimp only
  rw [hget]
  dsimp only
  rw [hfound]
  rfl

theorem keyExists_on (hw : w.available = true) (hk : place hive path = .ok k)
    (hthere : k ∈ Assoc.keys (registryOf h).keys) :
    (w.keyExists hive path).on h = (.ok true, h) := by
  rw [keyExists, Act.on_bind_of_ok (requireProbe_on hw h), Act.on_bind_result hk, ask_on,
    hasKey_of_mem hthere]

/-- Setting a value below a key that is not denied. -/
theorem setValue_on (hw : w.available = true) (hk : place hive path = .ok k)
    (hn : nameOf name = .ok n) (hgranted : k ∉ (registryOf h).denied) (v : RegistryValue) :
    ∃ h', (w.perform (.setValue hive path name v)).on h = (.ok (), h') ∧
      (registryOf h).Puts k n (some (.ofValue v)) (registryOf h') := by
  obtain ⟨t, hedit, hputs⟩ := puts_setting hgranted n (.ofValue v)
  rw [perform, Act.on_bind_of_ok (requireMutator_on hw h), setValue, Act.on_bind_result hk,
    Act.on_bind_result hn, Act.on_bind_of_ok (edit_on hedit)]
  exact ⟨_, rfl, hputs⟩

/-- Deleting a value of a key that is there and not denied. -/
theorem deleteValue_on (hw : w.available = true) (hk : place hive path = .ok k)
    (hn : nameOf name = .ok n) (hgranted : k ∉ (registryOf h).denied)
    (hthere : k ∈ Assoc.keys (registryOf h).keys) :
    ∃ b h', (w.perform (.deleteValue hive path name)).on h = (.ok b, h') ∧
      (registryOf h).Puts k n none (registryOf h') := by
  obtain ⟨values, hvalues⟩ := Option.isSome_iff_exists.mp (Assoc.has_iff.mpr hthere)
  have hasked : (ask fun t => t.openKey k).attempt.on h = (.ok (.ok values), h) := by
    rw [Act.on_attempt, ask_on, openKey_granted hgranted hvalues]
  rw [perform, Act.on_bind_of_ok (requireMutator_on hw h), deleteValue, Act.on_bind_result hk,
    Act.on_bind_result hn, Act.on_bind_of_ok hasked]
  exact ⟨_, _, rfl, puts_erase hvalues⟩

end WindowsAccess

/-! ## Changing a value and reverting the change -/

/-- Where an operation on the registry goes when the hive of the target user can be reached. -/
def Engine.target {μ : Type} (e : Engine μ) (op : RegistryOperation) : Hive × Datum :=
  if op.hive ≠ .currentUser || !e.targetUser.truthy then (op.hive, op.keyPath)
  else (.users, .text (e.targetUser.display ++ "\\" ++ op.keyPath.display))

section

open Session RegistryTree
open WindowsAccess (registryOf)

variable {e : Engine Windows} {w : WindowsAccess} {op : RegistryOperation} {slot : Slot}
  {s : Session Windows} {k : KeyPlace} {n : String} {v : RegistryValue}

/-- The hive that an operation goes to is there: its own, or that of the target user. -/
def Engine.Reaches (e : Engine Windows) (op : RegistryOperation) (t : RegistryTree) : Prop :=
  op.hive = .currentUser → e.targetUser.truthy = true →
    ∃ u, place .users e.targetUser = .ok u ∧ u ∈ Assoc.keys t.keys

theorem resolve_target (he : e.mutator = w.mutator) (hw : w.available = true) {h : Host Windows}
    (hreach : e.Reaches op (registryOf h)) :
    (e.resolve op.hive op.keyPath).on h = (.ok (e.target op), h) := by
  unfold Engine.resolve Engine.target
  split
  · rfl
  · next hredirected =>
    simp only [ne_eq, Bool.or_eq_true, decide_eq_true_eq, Bool.not_eq_true', not_or, not_not,
      Bool.not_eq_false] at hredirected
    obtain ⟨u, hu, hthere⟩ := hreach hredirected.1 hredirected.2
    have hfound : (e.mutator.keyExists .users e.targetUser).on h = (.ok true, h) := by
      rw [he]
      exact WindowsAccess.keyExists_on hw hu hthere
    rw [Act.on_bind_of_ok hfound]
    rfl

/-- The operation changes a value of a Windows that can be reached, at this place, and the key is
not denied. -/
structure Engine.Aims (e : Engine Windows) (w : WindowsAccess) (op : RegistryOperation)
    (k : KeyPlace) (n : String) (t : RegistryTree) : Prop where
  mutator : e.mutator = w.mutator
  available : w.available = true
  action : op.action = .setValue ∨ op.action = .deleteValue
  reaches : e.Reaches op t
  place : RegistryTree.place (e.target op).1 (e.target op).2 = .ok k
  name : nameOf op.valueName = .ok n
  granted : k ∉ t.denied

namespace Engine.Aims

theorem of_puts {t t' : RegistryTree} {x : Option StoredValue} (h : e.Aims w op k n t)
    (hputs : t.Puts k n x t') : e.Aims w op k n t' where
  mutator := h.mutator
  available := h.available
  action := h.action
  reaches hhive huser := by
    obtain ⟨u, hu, hthere⟩ := h.reaches hhive huser
    exact ⟨u, hu, hputs.lasting u hthere⟩
  place := h.place
  name := h.name
  granted := hputs.denied ▸ h.granted

/-- **Running a change of a value** captures what reading gives, and changes this value alone. -/
theorem run (h : e.Aims w op k n (registryOf s.host))
    (hv : (registryOf s.host).valueAt k n = some (.answered v))
    (hfree : Assoc.get? slot s.memory.registry = none) :
    (∃ x, (registryOf s.host).Puts k n x (registryOf ((e.runRegistry slot op).on s).2.host)) ∧
      Assoc.get? slot ((e.runRegistry slot op).on s).2.memory.registry =
        some (.of true (StoredValue.readBack v) true) := by
  have hresolve : (onHost (e.resolve op.hive op.keyPath)).on s = (.ok (e.target op), s) :=
    onHost_of (resolve_target h.mutator h.available h.reaches)
  have hread : (onHost (e.mutator.readValue (e.target op).1 (e.target op).2 op.valueName)).on s =
      (.ok (.found (StoredValue.readBack v)), s) := by
    rw [h.mutator]
    exact onHost_of (WindowsAccess.readValue_on h.available h.place h.name h.granted hv
      (StoredValue.value_answered v))
  let s₁ := registryPart.set
    (Assoc.put slot (.of true (StoredValue.readBack v) true) s.memory.registry) s
  have hcapture : (e.captureValue slot (e.target op).1 (e.target op).2 op.valueName).on s =
      (.ok (), s₁) := by
    rw [captureValue, Act.on_bind_of_ok hread, Act.on_discard, capture_first registryPart hfree]
    rfl
  have hnoted : Assoc.get? slot s₁.memory.registry =
      some (.of true (StoredValue.readBack v) true) :=
    (Assoc.get?_put _ _ _ _).trans (if_pos rfl)
  rw [runRegistry, Act.on_bind_of_ok hresolve]
  dsimp only
  rcases h.action with haction | haction <;> rw [haction] <;> dsimp only <;>
    rw [Act.on_bind_of_ok hcapture]
  · rw [Act.on_bind, Act.on_result]
    -- a payload that cannot be used is not written
    rcases op.resolveValue with f | _ | value
    · exact ⟨⟨_, .refl hv⟩, hnoted⟩
    · exact ⟨⟨_, .refl hv⟩, hnoted⟩
    · obtain ⟨h', hset, hputs⟩ := WindowsAccess.setValue_on (h := s₁.host) h.available h.place
        h.name h.granted value
      dsimp only
      rw [Act.on_bind_of_ok (write_of h.mutator hset)]
      exact ⟨⟨_, hputs⟩, hnoted⟩
  · obtain ⟨b, h', hdelete, hputs⟩ := WindowsAccess.deleteValue_on (h := s₁.host) h.available
      h.place h.name h.granted (mem_of_valueAt hv)
    rw [Act.on_bind_of_ok (write_of h.mutator hdelete)]
    cases b <;> exact ⟨⟨_, hputs⟩, hnoted⟩

/-- **Restoring a change of a value** writes the captured value, or deletes the value when it was
captured without content. -/
theorem restore (h : e.Aims w op k n (registryOf s.host))
    (hthere : k ∈ Assoc.keys (registryOf s.host).keys)
    (hnoted : Assoc.get? slot s.memory.registry = some (.of true (StoredValue.readBack v) true)) :
    (registryOf s.host).Puts k n ((StoredValue.readBack v).map .ofValue)
      (registryOf ((e.restoreRegistry slot op).on s).2.host) := by
  have hresolve : (onHost (e.resolve op.hive op.keyPath)).on s = (.ok (e.target op), s) :=
    onHost_of (resolve_target h.mutator h.available h.reaches)
  have hcaptured : (captured? registryPart slot).on s =
      (.ok (some (.of true (StoredValue.readBack v) true)), s) := by rw [← hnoted]; rfl
  have hcontent : (RegistryCapture.of true (StoredValue.readBack v) true).content =
      StoredValue.readBack v := rfl
  have hwrite := restoringWrite_value (.of true (StoredValue.readBack v) true) (e.target op).1
    (e.target op).2 h.action
  rw [hcontent] at hwrite
  rw [restoreRegistry, Act.on_bind_of_ok hcaptured]
  dsimp only
  rw [Act.on_bind_of_ok hresolve, hwrite]
  dsimp only
  cases StoredValue.readBack v with
  | none =>
    obtain ⟨b, h', hdelete, hputs⟩ := WindowsAccess.deleteValue_on h.available h.place h.name
      h.granted hthere
    rw [Act.discard_bind, Act.on_bind_of_ok (write_of h.mutator hdelete)]
    exact hputs
  | some v' =>
    obtain ⟨h', hset, hputs⟩ := WindowsAccess.setValue_on h.available h.place h.name h.granted v'
    rw [Act.discard_bind, Act.on_bind_of_ok (write_of h.mutator hset)]
    exact hputs

/-- Changing a value and taking the change back. -/
theorem taken_back {t : Tweak} (h : e.Aims w op k n (registryOf s.host))
    (hv : (registryOf s.host).valueAt k n = some (.answered v))
    (hcheck : e.skipIfApplied = false ∨ e.detector = none) (hmay : e.mayRun t.operations = true)
    (hops : t.operations = { registry := [op] }) (hr : t.isReversible = true)
    (hu : t.undo? = none) (hstore : s.store = none)
    (hfree : Assoc.get? ⟨t.id, .apply, 0⟩ s.memory.registry = none) :
    ∃ r s', (e.revert (fun _ => false) t).on ((e.apply (fun _ => false) t).on s).2 = (.ok r, s') ∧
      (registryOf s.host).Puts k n (if v = .binary [] then none else some (.answered v))
        (registryOf s'.host) := by
  have hregistry {s s' : Session Windows} (hcore : s'.core = s.core) :
      registryOf s'.host = registryOf s.host :=
    congrArg (fun c : Core Windows => c.machine.registry) hcore
  have hmemory {s s' : Session Windows} (hcore : s'.core = s.core) :
      s'.memory.registry = s.memory.registry :=
    congrArg (fun c : Core Windows => c.memory.registry) hcore
  have hsteps : e.runSteps t.id .apply t.operations =
      .ok [⟨op.describe, e.runRegistry ⟨t.id, .apply, 0⟩ op⟩] := by rw [hops]; rfl
  have hback : e.restoreSteps t.id t.operations =
      .ok [⟨undoing "Restore" op.describe, e.restoreRegistry ⟨t.id, .apply, 0⟩ op⟩] := by
    rw [hops]; rfl
  obtain ⟨r, s', s₁, s₂, hcalls, hcore₁, hcore₂, hcore'⟩ :=
    there_and_back hcheck hmay hr hu hsteps hback hstore
  rw [← hmemory hcore₁] at hfree
  obtain ⟨⟨x, hrun⟩, hnoted⟩ := run (s := s₁) (hregistry hcore₁ ▸ h) (hregistry hcore₁ ▸ hv) hfree
  rw [← hregistry hcore₂, hregistry hcore₁] at hrun
  rw [← hmemory hcore₂] at hnoted
  have hrestore := restore (s := s₂) (h.of_puts hrun) (hrun.lasting k (mem_of_valueAt hv)) hnoted
  rw [← hregistry hcore', StoredValue.map_readBack] at hrestore
  exact ⟨r, s', hcalls, hrun.trans hrestore⟩

end Engine.Aims

/-- **A value that was there comes back, unless it was bytes and there were none.**  Such a value is
read as one without content; every other value is read, and stored again as it was.  Applying and
reverting a tweak that sets or deletes a value that was there leaves all values as they were, but a
value of no bytes is gone. -/
theorem Engine.value_kept {t : Tweak} (h : e.Aims w op k n (registryOf s.host))
    (hv : (registryOf s.host).valueAt k n = some (.answered v))
    (hcheck : e.skipIfApplied = false ∨ e.detector = none) (hmay : e.mayRun t.operations = true)
    (hops : t.operations = { registry := [op] }) (hr : t.isReversible = true)
    (hu : t.undo? = none) (hstore : s.store = none)
    (hfree : Assoc.get? ⟨t.id, .apply, 0⟩ s.memory.registry = none) :
    (w.readValue (e.target op).1 (e.target op).2 op.valueName).on s.host =
        (.ok (.found (if v = .binary [] then none else some v)), s.host) ∧
      (v ≠ .binary [] → ∃ h',
        (w.perform (.setValue (e.target op).1 (e.target op).2 op.valueName v)).on s.host =
          (.ok (), h') ∧
        ∀ k' n', (registryOf h').valueAt k' n' = (registryOf s.host).valueAt k' n') ∧
      ∃ r s', (e.revert (fun _ => false) t).on ((e.apply (fun _ => false) t).on s).2 = (.ok r, s') ∧
        ∀ k' n', (registryOf s'.host).valueAt k' n' =
          if k' = k ∧ n' = n ∧ v = .binary [] then none
          else (registryOf s.host).valueAt k' n' := by
  refine ⟨WindowsAccess.readValue_on h.available h.place h.name h.granted hv
    (StoredValue.value_answered v), fun hne => ?_, ?_⟩
  · obtain ⟨h', hset, hputs⟩ := WindowsAccess.setValue_on h.available h.place h.name h.granted v
    rw [StoredValue.ofValue_eq hne, ← hv] at hputs
    exact ⟨h', hset, hputs.values_same⟩
  · obtain ⟨r, s', hcalls, hputs⟩ := h.taken_back hv hcheck hmay hops hr hu hstore hfree
    refine ⟨r, s', hcalls, fun k' n' => ?_⟩
    by_cases hempty : v = .binary []
    · rw [hputs.values]
      simp only [hempty, if_true, and_true]
    · rw [if_neg hempty, ← hv] at hputs
      rw [hputs.values_same, if_neg fun hat => hempty hat.2.2]

/-- A value as the platform stores it, beside its key's own key. -/
def storedSample (v : RegistryValue) : Session Windows :=
  { host := { machine := { registry := { keys :=
      [((.currentUser, "software"), []),
       ((.currentUser, "software\\x"), [("v", .answered v)])] } } } }

/-- Sets this value. -/
def settingSample : Tweak :=
  { id := "t"
    name := .text "T"
    operations := { registry := [{ hive := .currentUser, keyPath := .text "Software\\X"
                                   valueName := .text "V", value := .int 1 }] } }

theorem storedSample_aims (v : RegistryValue) : plainEngine.Aims {}
    { hive := .currentUser, keyPath := .text "Software\\X", valueName := .text "V"
      value := .int 1 }
    (.currentUser, "software\\x") "v" (registryOf (storedSample v).host) where
  mutator := rfl
  available := rfl
  action := .inl rfl
  reaches _ huser := by cases huser
  place := by decide +kernel
  name := by decide +kernel
  granted := List.not_mem_nil

/-- A list of no texts is set to a number, and is there again. -/
theorem sample_kept : ∃ r s',
    (plainEngine.revert (fun _ => false) settingSample).on
      ((plainEngine.apply (fun _ => false) settingSample).on (storedSample (.multiString []))).2 =
        (.ok r, s') ∧
    (registryOf s'.host).valueAt (.currentUser, "software\\x") "v" =
      some { data := .list [], type := 7 } := by
  obtain ⟨-, -, r, s', hcalls, hvalues⟩ := Engine.value_kept (t := settingSample)
    (storedSample_aims (.multiString [])) rfl (.inr rfl) rfl rfl rfl rfl rfl rfl
  exact ⟨r, s', hcalls, (hvalues _ _).trans rfl⟩

/-- A value of no bytes is set to a number, and then it is gone. -/
theorem sample_emptied :
    (registryOf (storedSample (.binary [])).host).valueAt (.currentUser, "software\\x") "v" =
        some { data := .null, type := 3 } ∧
      ∃ r s', (plainEngine.revert (fun _ => false) settingSample).on
          ((plainEngine.apply (fun _ => false) settingSample).on (storedSample (.binary []))).2 =
            (.ok r, s') ∧
        (registryOf s'.host).valueAt (.currentUser, "software\\x") "v" = none := by
  obtain ⟨r, s', hcalls, hputs⟩ := (storedSample_aims (.binary [])).taken_back
    (t := settingSample) rfl (.inr rfl) rfl rfl rfl rfl rfl rfl
  exact ⟨rfl, r, s', hcalls, (hputs.values _ _).trans rfl⟩

end
end TweakEngine
