/-
# What a machine shows

`Machine.stored` is what stands under a value name of a key: nothing, a value without
content, or a value with its kind and data; `Machine.content` does not tell the first
two apart.  The theorems below say what each write that the engine issues does to the
stored values, the keys and the services, and that all other writes leave them alone.
-/

import TweakEngine.Proofs.Actions
import TweakEngine.Proofs.Tables

namespace TweakEngine

/-- A value that is a text. -/
def Datum.IsText (d : Datum) : Prop := ∃ s, d = .text s

/-- A value that is a text or absent. -/
def Datum.IsOptionalText (d : Datum) : Prop := d = .null ∨ d.IsText

theorem Datum.IsText.optional {d : Datum} (h : d.IsText) : d.IsOptionalText := .inr h

namespace Machine

/-- What stands under a value name of a key; a value may be without content. -/
def stored (m : Machine) (key : Hive × String) (name : String) : Option (Option RegistryValue) :=
  (Assoc.get? key m.keys).bind (Assoc.get? name)

/-- The value under a value name of a key, if it has content. -/
def content (m : Machine) (key : Hive × String) (name : String) : Option RegistryValue :=
  (m.stored key name).join

/-- Whether a key is stored. -/
def hasKey (m : Machine) (key : Hive × String) : Bool := Assoc.has key m.keys

/-- The stored form of a name that is a text or absent. -/
def nameOf (d : Datum) : String := if d.truthy then Text.lowerAsciiText d.display else ""

theorem folded_text {d : Datum} (h : d.IsText) :
    folded d = .ok (Text.lowerAsciiText d.display) := by
  obtain ⟨s, rfl⟩ := h
  rfl

theorem foldedName_text {d : Datum} (h : d.IsOptionalText) : foldedName d = .ok (nameOf d) := by
  rcases h with rfl | ⟨s, rfl⟩
  · rfl
  · unfold foldedName nameOf
    cases hs : (Datum.text s).truthy
    · simp
    · simpa using folded_text ⟨s, rfl⟩

/-- Only texts can be found. -/
theorem eq_text_of_folded {d : Datum} {p : String} (h : folded d = .ok p) :
    ∃ s, d = .text s ∧ p = Text.lowerAsciiText s := by
  cases d with
  | text s => exact ⟨s, rfl, (Except.ok.inj h).symm⟩
  | _ => cases h

theorem eq_nameOf_of_foldedName {d : Datum} {n : String} (h : foldedName d = .ok n) :
    n = nameOf d := by
  unfold foldedName at h
  unfold nameOf
  split at h
  · next ht =>
    obtain ⟨s, rfl, rfl⟩ := eq_text_of_folded h
    rw [if_pos ht]
    rfl
  · next ht =>
    rw [if_neg ht]
    exact (Except.ok.inj h).symm

theorem stored_of_not_hasKey {m : Machine} {key : Hive × String} (h : m.hasKey key = false)
    (name : String) : m.stored key name = none := by
  have : Assoc.get? key m.keys = none := by
    simpa [hasKey, Assoc.has] using h
  simp [stored, this]

/-- What a reading finds is stored. -/
theorem stored_of_reading {m : Machine} {hive : Hive} {path name : String}
    {v : Option RegistryValue} (h : m.reading hive path name = .found v) :
    m.stored (hive, path) name = some v := by
  unfold reading at h
  split at h
  · cases h
  · unfold stored
    cases hk : Assoc.get? (hive, path) m.keys with
    | none =>
      rw [hk] at h
      cases h
    | some values =>
      rw [hk] at h
      dsimp only [Option.bind_some] at h ⊢
      cases hn : Assoc.get? name values with
      | none =>
        rw [hn] at h
        cases h
      | some w =>
        rw [hn] at h
        exact congrArg some (Reading.found.inj h)

/-- What is not stored is not found. -/
theorem reading_of_missing {m : Machine} {hive : Hive} {path name : String}
    (h : m.stored (hive, path) name = none) : (m.reading hive path name).valueExists = false := by
  cases hr : m.reading hive path name with
  | found v => rw [stored_of_reading hr] at h; cases h
  | _ => rfl

/-- A value that is missing or shown with its kind and data; the values of a denied key and
values without content are not shown. -/
def Shows (m : Machine) (key : Hive × String) (name : String) : Prop :=
  m.stored key name = none ∨ ∃ v, m.reading key.1 key.2 name = .found (some v)

/-- What no write changes: which keys are denied, which requests fail, what scripts answer. -/
def settings (m : Machine) : List (Hive × String) × (Request → Option Failure) × Assoc String Script :=
  (m.denied, m.faults, m.scripts)

end Machine

/-- The writes that change registry keys and values. -/
def Write.isRegistry : Write → Bool
  | .setValue .. | .deleteValue .. | .createKey .. | .deleteKey .. => true
  | _ => false

/-- The writes that change services. -/
def Write.isService : Write → Bool
  | .stopService .. | .startService .. | .setStartup .. => true
  | _ => false

namespace Machine

variable {m m' : Machine} {w : Write} {r : w.Reply}

theorem withService_frame {service : Datum} {f : Service → Service}
    (h : m.withService service f = .ok m') :
    m'.settings = m.settings ∧ m'.keys = m.keys ∧ m'.files = m.files := by
  obtain ⟨name, -, h⟩ := ok_of_bind h
  split at h
  · cases h
  · cases h; exact ⟨rfl, rfl, rfl⟩

theorem removePath_frame {path : Datum} (h : m.removePath path = .ok m') :
    m'.settings = m.settings ∧ m'.keys = m.keys ∧ m'.services = m.services := by
  unfold removePath at h
  split at h
  · split at h
    · cases h; exact ⟨rfl, rfl, rfl⟩
    · cases h
  · cases h

theorem duplicate_frame {source target : Datum} (h : m.duplicate source target = .ok m') :
    m'.settings = m.settings ∧ m'.keys = m.keys ∧ m'.services = m.services := by
  obtain ⟨t, -, h⟩ := ok_of_bind h
  split at h
  · split at h
    · cases h; exact ⟨rfl, rfl, rfl⟩
    · split at h
      · cases h; exact ⟨rfl, rfl, rfl⟩
      · cases h
  · cases h

theorem relocate_frame {source target : Datum} (h : m.relocate source target = .ok m') :
    m'.settings = m.settings ∧ m'.keys = m.keys ∧ m'.services = m.services := by
  obtain ⟨t, -, h⟩ := ok_of_bind h
  split at h
  · split at h
    · cases h; exact ⟨rfl, rfl, rfl⟩
    · split at h
      · cases h; exact ⟨rfl, rfl, rfl⟩
      · cases h
  · cases h

/-- A write to the registry changes nothing but the registry. -/
theorem apply_registry_only (hw : w.isRegistry) (h : m.apply w = .ok (r, m')) :
    m' = { m with keys := m'.keys } := by
  cases w with
  | setValue hive path name value =>
    obtain ⟨p, -, h⟩ := ok_of_bind h
    obtain ⟨n, -, h⟩ := ok_of_bind h
    cases h; rfl
  | deleteValue hive path name =>
    obtain ⟨p, -, h⟩ := ok_of_bind h
    obtain ⟨n, -, h⟩ := ok_of_bind h
    split at h <;> cases h <;> rfl
  | createKey hive path =>
    obtain ⟨p, -, h⟩ := ok_of_bind h
    dsimp only at h
    split at h <;> cases h <;> rfl
  | deleteKey hive path =>
    obtain ⟨p, -, h⟩ := ok_of_bind h
    cases h; rfl
  | _ => cases hw

/-- A write to the registry leaves services, files and settings alone. -/
theorem apply_registry_frame (hw : w.isRegistry) (h : m.apply w = .ok (r, m')) :
    m'.settings = m.settings ∧ m'.services = m.services ∧ m'.files = m.files := by
  rw [apply_registry_only hw h]
  exact ⟨rfl, rfl, rfl⟩

/-- A write to a service leaves the registry, files and settings alone. -/
theorem apply_service_frame (hw : w.isService) (h : m.apply w = .ok (r, m')) :
    m'.settings = m.settings ∧ m'.keys = m.keys ∧ m'.files = m.files := by
  cases w with
  | stopService service | startService service | setStartup service startup =>
    obtain ⟨m₁, h₁, h⟩ := ok_of_bind h
    cases h; exact withService_frame h₁
  | _ => cases hw

/-- Scripts and writes to files leave the registry, services and settings alone. -/
theorem apply_other_frame (hr : w.isRegistry = false) (hs : w.isService = false)
    (h : m.apply w = .ok (r, m')) :
    m'.settings = m.settings ∧ m'.keys = m.keys ∧ m'.services = m.services := by
  cases w with
  | setValue | deleteValue | createKey | deleteKey => cases hr
  | stopService | startService | setStartup => cases hs
  | runScript script timeout elevated => cases h; exact ⟨rfl, rfl, rfl⟩
  | writeFile path content create =>
    obtain ⟨p, -, h⟩ := ok_of_bind h
    cases h; exact ⟨rfl, rfl, rfl⟩
  | createDirectory path =>
    obtain ⟨p, -, h⟩ := ok_of_bind h
    cases h; exact ⟨rfl, rfl, rfl⟩
  | deletePath path =>
    obtain ⟨m₁, h₁, h⟩ := ok_of_bind h
    cases h; exact removePath_frame h₁
  | movePath source target =>
    obtain ⟨m₁, h₁, h⟩ := ok_of_bind h
    cases h; exact relocate_frame h₁
  | copyPath source target =>
    obtain ⟨m₁, h₁, h⟩ := ok_of_bind h
    cases h; exact duplicate_frame h₁

section

variable {path name service : Datum}

/-- The key that a path which is a text names. -/
def keyOf (hive : Hive) (path : Datum) : Hive × String := (hive, Text.lowerAsciiText path.display)

/-- The stored form of a service name that is a text. -/
def serviceOf (service : Datum) : String := Text.lowerAsciiText service.display

/-- Setting a value stores it under its name and makes the key. -/
theorem apply_setValue (m : Machine) (hive : Hive) (hp : path.IsText)
    (hn : foldedName name = .ok (nameOf name)) (v : RegistryValue) :
    ∃ m', m.apply (.setValue hive path name v) = .ok ((), m') ∧
      (∀ k n, m'.stored k n =
        if k = keyOf hive path ∧ n = nameOf name then some (some v) else m.stored k n) ∧
      ∀ k, m'.hasKey k = (decide (keyOf hive path = k) || m.hasKey k) := by
  refine ⟨_, by simp only [apply, folded_text hp, hn]; rfl, fun k n => ?_, fun k => ?_⟩
  · simp only [stored, Assoc.get?_put, keyOf]
    by_cases hk : (hive, Text.lowerAsciiText path.display) = k
    · subst hk
      by_cases hn' : nameOf name = n
      · simp [Assoc.get?_put, hn']
      · have hne : n ≠ nameOf name := fun e => hn' e.symm
        simp only [if_true, Option.bind_some, Assoc.get?_put, hn', if_false, hne, and_false]
        cases Assoc.get? (hive, Text.lowerAsciiText path.display) m.keys <;> rfl
    · have hne : k ≠ (hive, Text.lowerAsciiText path.display) := fun e => hk e.symm
      simp [hk, hne]
  · exact Assoc.has_put ..

/-- Deleting a value takes it away and leaves the keys. -/
theorem apply_deleteValue (m : Machine) (hive : Hive) (hp : path.IsText)
    (hn : foldedName name = .ok (nameOf name)) :
    ∃ b m', m.apply (.deleteValue hive path name) = .ok (b, m') ∧
      (∀ k n, m'.stored k n =
        if k = keyOf hive path ∧ n = nameOf name then none else m.stored k n) ∧
      ∀ k, m'.hasKey k = m.hasKey k := by
  simp only [apply, folded_text hp, hn]
  cases hk : Assoc.get? (hive, Text.lowerAsciiText path.display) m.keys with
  | none =>
    refine ⟨false, m, by simp only [bind, Except.bind, hk]; rfl, fun k n => ?_, fun k => rfl⟩
    by_cases h : k = keyOf hive path ∧ n = nameOf name
    · rw [if_pos h, stored, h.1, keyOf, hk]
      rfl
    · rw [if_neg h]
  | some values =>
    refine ⟨_, _, by simp only [bind, Except.bind, hk]; rfl, fun k n => ?_, fun k => ?_⟩
    · simp only [stored, Assoc.get?_put, keyOf]
      by_cases hk' : (hive, Text.lowerAsciiText path.display) = k
      · subst hk'
        by_cases hn' : nameOf name = n
        · simp [Assoc.get?_erase, hn']
        · have hne : n ≠ nameOf name := fun e => hn' e.symm
          simp [Assoc.get?_erase, hn', hne, hk]
      · have hne : k ≠ (hive, Text.lowerAsciiText path.display) := fun e => hk' e.symm
        simp [hk', hne]
    · simp only [hasKey, Assoc.has_put]
      by_cases hk' : (hive, Text.lowerAsciiText path.display) = k
      · simp [← hk', Assoc.has, hk]
      · simp [hk']

/-- Creating a key makes it without values, unless it is there. -/
theorem apply_createKey (m : Machine) (hive : Hive) (hp : path.IsText) :
    ∃ b m', m.apply (.createKey hive path) = .ok (b, m') ∧
      (∀ k n, m'.stored k n = m.stored k n) ∧
      ∀ k, m'.hasKey k = (decide (keyOf hive path = k) || m.hasKey k) := by
  simp only [apply, folded_text hp]
  cases hk : m.hasKey (keyOf hive path) with
  | true =>
    have hk' : Assoc.has (hive, Text.lowerAsciiText path.display) m.keys = true := hk
    refine ⟨false, m, by simp only [bind, Except.bind, hk']; rfl, fun k n => rfl, fun k => ?_⟩
    by_cases h : keyOf hive path = k
    · rw [← h, hk, decide_eq_true rfl, Bool.true_or]
    · rw [decide_eq_false h, Bool.false_or]
  | false =>
    have hk' : Assoc.has (hive, Text.lowerAsciiText path.display) m.keys = false := hk
    refine ⟨true, _, by simp only [bind, Except.bind, hk']; rfl, fun k n => ?_, fun k => ?_⟩
    · by_cases h : keyOf hive path = k
      · rw [← h, stored_of_not_hasKey hk]
        simp [stored, Assoc.get?_put, keyOf, Assoc.get?]
      · have h' : (hive, Text.lowerAsciiText path.display) ≠ k := h
        simp [stored, Assoc.get?_put, h']
    · exact Assoc.has_put ..

/-- Deleting a key takes it away with everything below it. -/
theorem apply_deleteKey (m : Machine) (hive : Hive) (hp : path.IsText) :
    ∃ b m', m.apply (.deleteKey hive path) = .ok (b, m') ∧
      (∀ k n, m'.stored k n =
        if atOrBelow hive (keyOf hive path).2 k then none else m.stored k n) ∧
      ∀ k, m'.hasKey k = (!atOrBelow hive (keyOf hive path).2 k && m.hasKey k) := by
  simp only [apply, folded_text hp]
  have hkept := fun k => Assoc.get?_filter
    (fun k => !atOrBelow hive (Text.lowerAsciiText path.display) k) k m.keys
  refine ⟨_, _, rfl, fun k n => ?_, fun k => ?_⟩
  · simp only [stored, hkept, keyOf]
    by_cases h : atOrBelow hive (Text.lowerAsciiText path.display) k <;> simp [h]
  · simp only [hasKey, Assoc.has, hkept, keyOf]
    by_cases h : atOrBelow hive (Text.lowerAsciiText path.display) k <;> simp [h]

/-- The second machine differs from the first at most in one service. -/
structure ServiceReplaced (m m' : Machine) (name : String) (x : Service) : Prop where
  settings : m'.settings = m.settings
  keys : m'.keys = m.keys
  services : ∀ n, Assoc.get? n m'.services = if name = n then some x else Assoc.get? n m.services

theorem ServiceReplaced.refl {m : Machine} {n : String} {x : Service}
    (hx : Assoc.get? n m.services = some x) : ServiceReplaced m m n x := by
  refine ⟨rfl, rfl, fun n' => ?_⟩
  split
  · next h => rw [← h, hx]
  · rfl

theorem ServiceReplaced.trans {m₁ m₂ m₃ : Machine} {n : String} {x y : Service}
    (h : ServiceReplaced m₁ m₂ n x) (h' : ServiceReplaced m₂ m₃ n y) :
    ServiceReplaced m₁ m₃ n y := by
  refine ⟨h'.settings.trans h.settings, h'.keys.trans h.keys, fun n' => ?_⟩
  rw [h'.services, h.services]
  split <;> rfl

theorem ServiceReplaced.get {m m' : Machine} {n : String} {x : Service}
    (h : ServiceReplaced m m' n x) : Assoc.get? n m'.services = some x := by
  rw [h.services, if_pos rfl]

/-- A change of a service that exists changes this service only. -/
theorem withService_text (m : Machine) (hs : service.IsText) (f : Service → Service)
    {x : Service} (hx : Assoc.get? (serviceOf service) m.services = some x) :
    ∃ m', m.withService service f = .ok m' ∧ ServiceReplaced m m' (serviceOf service) (f x) := by
  have hx' : Assoc.get? (Text.lowerAsciiText service.display) m.services = some x := hx
  refine ⟨{ m with services := Assoc.put (serviceOf service) (f x) m.services }, ?_,
    rfl, rfl, fun n => Assoc.get?_put _ _ _ _⟩
  simp only [withService, folded_text hs, bind, Except.bind, hx']
  rfl

/-- What the writes to a service make of it. -/
def serviceAfter (w : Write) (x : Service) : Service :=
  match w with
  | .stopService _ => { x with state := .stopped }
  | .startService _ => { x with state := .running }
  | .setStartup _ startup => { x with startup := startup }
  | _ => x

/-- A write to a service that exists is carried out and changes this service only. -/
theorem apply_service_text (m : Machine) {w : Write} (hs : service.IsText)
    (hw : w = .stopService service ∨ w = .startService service ∨
      ∃ t, w = .setStartup service t)
    {x : Service} (hx : Assoc.get? (serviceOf service) m.services = some x) :
    ∃ a m', m.apply w = .ok (a, m') ∧
      ServiceReplaced m m' (serviceOf service) (serviceAfter w x) := by
  rcases hw with rfl | rfl | ⟨t, rfl⟩
  · obtain ⟨m', h, hm'⟩ := m.withService_text hs (fun s => { s with state := .stopped }) hx
    exact ⟨(), m', by rw [apply, h]; rfl, hm'⟩
  · obtain ⟨m', h, hm'⟩ := m.withService_text hs (fun s => { s with state := .running }) hx
    exact ⟨(), m', by rw [apply, h]; rfl, hm'⟩
  · obtain ⟨m', h, hm'⟩ := m.withService_text hs (fun s => { s with startup := t }) hx
    exact ⟨(), m', by rw [apply, h]; rfl, hm'⟩

end
end Machine
end TweakEngine
