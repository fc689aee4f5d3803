/-
# Reverting operations that had no effect

Running an operation notes first what its targets hold, so an operation whose write failed
is noted like one that went well.  `restore_idle` says when restoring it from that note does
nothing: always, unless the note does not tell what was there (`Operation.Told`).  A note
does not tell a value that cannot be read from a missing one; a file operation does not
look at its note, or notes too little, when the target of a renaming or the backup of a
deletion was taken before.  Then restoring does what it would do after a success: it moves
a path that the operation has not made (`sample_moved`).
-/

import TweakEngine.Proofs.TweakRuns

namespace TweakEngine

open Session

namespace Machine

variable {m : Machine} {hive : Hive} {path name service : Datum}

/-! ## Writes that change nothing -/

theorem idle_setValue {v : RegistryValue}
    (h : ∀ p n, folded path = .ok p → foldedName name = .ok n →
      m.stored (hive, p) n = some (some v)) : m.Idle (.setValue hive path name v) := by
  intro reply m' ha
  obtain ⟨p, hp, ha⟩ := ok_of_bind ha
  obtain ⟨n, hn, ha⟩ := ok_of_bind ha
  cases ha
  obtain ⟨values, hk, hv⟩ := Option.bind_eq_some_iff.mp (h p n hp hn)
  simp only [hk, Option.getD_some, Assoc.put_get? hv, Assoc.put_get? hk]

theorem idle_deleteValue
    (h : ∀ p n, folded path = .ok p → foldedName name = .ok n → m.stored (hive, p) n = none) :
    m.Idle (.deleteValue hive path name) := by
  intro reply m' ha
  obtain ⟨p, hp, ha⟩ := ok_of_bind ha
  obtain ⟨n, hn, ha⟩ := ok_of_bind ha
  have hnone := h p n hp hn
  cases hk : Assoc.get? (hive, p) m.keys with
  | none =>
    simp only [hk] at ha
    cases ha
    rfl
  | some values =>
    simp only [hk] at ha
    cases ha
    rw [stored, hk, Option.bind_some] at hnone
    simp only [Assoc.erase_missing hnone, Assoc.put_get? hk]

theorem idle_createKey (h : ∀ p, folded path = .ok p → m.hasKey (hive, p) = true) :
    m.Idle (.createKey hive path) := by
  intro reply m' ha
  obtain ⟨p, hp, ha⟩ := ok_of_bind ha
  have hk : Assoc.has (hive, p) m.keys = true := h p hp
  simp only [hk, if_true] at ha
  cases ha
  rfl

theorem idle_deleteKey
    (h : ∀ p, folded path = .ok p → ∀ k, atOrBelow hive p k = true → m.hasKey k = false) :
    m.Idle (.deleteKey hive path) := by
  intro reply m' ha
  obtain ⟨p, hp, ha⟩ := ok_of_bind ha
  cases ha
  have hkept : (m.keys.filter fun e => !atOrBelow hive p e.1) = m.keys := by
    refine List.filter_eq_self.mpr fun e he => ?_
    have hthere : m.hasKey e.1 = true := Assoc.has_of_mem he
    rw [Bool.not_eq_true']
    refine Bool.eq_false_iff.mpr fun hbelow => ?_
    rw [h p hp e.1 hbelow] at hthere
    cases hthere
  simp only [hkept]

theorem idle_setStartup {t : StartupType}
    (h : ∀ n x, folded service = .ok n → Assoc.get? n m.services = some x → x.startup = t) :
    m.Idle (.setStartup service t) := by
  intro reply m' ha
  obtain ⟨m₁, h₁, ha⟩ := ok_of_bind ha
  cases ha
  obtain ⟨n, hn, h₁⟩ := ok_of_bind h₁
  cases hx : Assoc.get? n m.services with
  | none =>
    simp only [hx] at h₁
    cases h₁
  | some x =>
    simp only [hx] at h₁
    cases h₁
    have hsame : { x with startup := t } = x := by rw [← h n x hn hx]
    simp only [hsame, Assoc.put_get? hx]

theorem idle_writeFile {content : Datum} {create : Bool}
    (h : m.fileText path = content) (hcontent : content.isNull = false) :
    m.Idle (.writeFile path content create) := by
  intro reply m' ha
  obtain ⟨p, hp, ha⟩ := ok_of_bind ha
  cases ha
  cases path with
  | text s =>
    obtain rfl : s = p := Except.ok.inj hp
    have hs : Assoc.get? s m.files = some content := by
      rw [fileText] at h
      cases hf : Assoc.get? s m.files with
      | none =>
        rw [hf] at h
        subst h
        cases hcontent
      | some c =>
        rw [hf] at h
        exact congrArg some h
    simp only [Assoc.put_get? hs]
  | _ => cases hp

/-- There is nothing to delete at a path that is not taken. -/
theorem idle_deletePath (h : m.hasPath path = .ok false) : m.Idle (.deletePath path) := by
  intro reply m' ha
  obtain ⟨m₁, h₁, ha⟩ := ok_of_bind ha
  cases path with
  | text s =>
    rw [removePath] at h₁
    rw [hasPath] at h
    rw [Except.ok.inj h] at h₁
    cases h₁
  | _ => cases h₁

end Machine

/-! ## What running notes -/

namespace Engine

variable {e : Engine Machine} {s : Session Machine} {slot : Slot} {α β : Type}

/-- An action that starts on `m` without a note under `slot` notes there at most what
satisfies `P`. -/
def Notes (part : Part (Session Machine) (Captures β)) (slot : Slot) (m : Machine) (P : β → Prop)
    (a : Work Machine α) : Prop :=
  ∀ s, s.core.machine = m → Assoc.get? slot (part.get s) = none →
    ∀ c, Assoc.get? slot (part.get (a.on s).2) = some c → P c

namespace Notes

variable {γ : Type} {part : Part (Session Machine) (Captures β)} {m : Machine} {P : β → Prop}

theorem throw (f : Failure) : Notes part slot m P (MonadExcept.throw f : Work Machine α) := by
  intro s _ hs c hc
  rw [Act.on_throw, hs] at hc
  cases hc

theorem throw_bind (f : Failure) (k : α → Work Machine γ) :
    Notes part slot m P (MonadExcept.throw f >>= k) := throw f

/-- After asking. -/
theorem ask_bind {r : Request} {f : Machine → Except Failure α} {k : α → Work Machine γ}
    (hk : ∀ x, f m = .ok x → Notes part slot m P (k x)) :
    Notes part slot m P (onHost (Machine.ask r f) >>= k) := by
  intro s hm hs c hc
  rw [Act.on_bind, ask_answers, hm] at hc
  cases hx : m.answer r (f m) with
  | error g =>
    rw [hx, hs] at hc
    cases hc
  | ok x =>
    rw [hx] at hc
    exact hk x (Machine.ok_of_answer hx) s hm hs c hc

/-- After resolving. -/
theorem resolve_bind (he : e.mutator = Machine.mutator) {hive : Hive} {path : Datum}
    {k : Hive × Datum → Work Machine γ}
    (hk : Notes part slot m P (k (e.destination hive path))) :
    Notes part slot m P (onHost (e.resolve hive path) >>= k) := by
  intro s hm hs c hc
  rw [Act.on_bind, resolve_on he] at hc
  cases hplace : e.placeOn s.core.machine hive path with
  | error g =>
    rw [hplace, hs] at hc
    cases hc
  | ok place =>
    rw [hplace, eq_destination hplace] at hc
    exact hk s hm hs c hc

/-- A capture, after which only machine and trail change. -/
theorem capture_bind {a : β} {k : Bool → Work Machine γ} (ha : P a)
    (hpart : ∀ c s, part.get (part.set c s) = c)
    (hk : ∀ kept, Act.Keeps part.get (k kept)) :
    Notes part slot m P (capture part slot a >>= k) := by
  intro s _ hs c hc
  have hcapture : (capture part slot a).on s =
      (.ok (Captures.keep slot a (part.get s)).2,
        part.set (Captures.keep slot a (part.get s)).1 s) := rfl
  rw [Act.on_bind, hcapture, hk, hpart, Captures.get?_keep, if_pos rfl, hs] at hc
  exact Option.some.inj hc ▸ ha

end Notes

end Engine

namespace RegistryOperation

/-- What an operation that goes to `target` notes of a machine. -/
def Notes (op : RegistryOperation) (target : Hive × Datum) (m : Machine) (c : RegistryCapture) :
    Prop :=
  ∃ p, Machine.folded target.2 = .ok p ∧ match op.action with
    | .createKey | .deleteKey =>
      c = .of (m.hasKey (target.1, p)) none (m.hasKey (target.1, p))
    | .setValue | .deleteValue => ∃ n, Machine.foldedName op.valueName = .ok n ∧
      c = .of (m.reading target.1 p n).valueExists (m.reading target.1 p n).value?
        (m.reading target.1 p n).keyExists

end RegistryOperation

/-- What an operation on a service notes of a machine. -/
def ServiceOperation.Notes (op : ServiceOperation) (m : Machine) (c : ServiceCapture) : Prop :=
  ∃ n x, Machine.folded op.service = .ok n ∧ Assoc.get? n m.services = some x ∧
    c = ⟨x.startup, some x.state⟩

/-- The path whose presence an operation notes. -/
def FileOperation.noted (op : FileOperation) : Datum :=
  match op.action with
  | .rename | .copy => op.target
  | _ => op.path

/-- What an operation on a file notes of a machine. -/
def FileOperation.Notes (op : FileOperation) (m : Machine) (c : FileCapture) : Prop :=
  m.hasPath op.noted = .ok c.existed ∧ (c.content = .null ∨ c.content = m.fileText op.noted)

namespace Engine

variable {e : Engine Machine} {slot : Slot} {m : Machine}

/-- What is noted of a key. -/
theorem runKey_notes (he : e.mutator = Machine.mutator) {op : RegistryOperation}
    (ha : op.action = .createKey ∨ op.action = .deleteKey) (target : Hive × Datum) (create : Bool) :
    Notes registryPart slot m (op.Notes target m) (e.runKey slot target.1 target.2 create) := by
  have hkey : e.mutator.keyExists = Machine.keyExists := by rw [he]; rfl
  rw [runKey, hkey]
  refine .ask_bind fun existed hx => ?_
  obtain ⟨p, hp, hx⟩ := ok_of_bind hx
  cases hx
  rw [Act.discard_bind]
  refine .capture_bind ⟨p, hp, by rcases ha with ha | ha <;> rw [ha] <;> rfl⟩ (fun _ _ => rfl)
    fun _ => ?_
  split
  · rw [Act.discard_bind]
    exact .bind (fun _ => rfl) fun _ => .pure _
  · refine .bind (fun _ => rfl) fun b => ?_
    cases b <;> exact .pure _

/-- What is noted of a value. -/
theorem captureValue_notes (he : e.mutator = Machine.mutator) {op : RegistryOperation}
    (ha : op.action = .setValue ∨ op.action = .deleteValue) (target : Hive × Datum)
    {k : Unit → Work Machine (Option String)} (hk : Act.Keeps registryPart.get (k ())) :
    Notes registryPart slot m (op.Notes target m)
      (e.captureValue slot target.1 target.2 op.valueName >>= k) := by
  have hread : e.mutator.readValue = Machine.readValue := by rw [he]; rfl
  rw [captureValue, hread, bind_assoc]
  refine .ask_bind fun reading hx => ?_
  obtain ⟨p, hp, hx⟩ := ok_of_bind hx
  obtain ⟨n, hn, hx⟩ := ok_of_bind hx
  cases hx
  rw [Act.discard_bind]
  exact .capture_bind ⟨p, hp, by rcases ha with ha | ha <;> rw [ha] <;> exact ⟨n, hn, rfl⟩⟩
    (fun _ _ => rfl) fun _ => hk

theorem runRegistry_notes (he : e.mutator = Machine.mutator) (op : RegistryOperation) :
    Notes registryPart slot m (op.Notes (e.destination op.hive op.keyPath) m)
      (e.runRegistry slot op) := by
  unfold runRegistry
  refine .resolve_bind he ?_
  dsimp only
  cases ha : op.action with
  | createKey => exact runKey_notes he (.inl ha) _ true
  | deleteKey => exact runKey_notes he (.inr ha) _ false
  | setValue =>
    refine captureValue_notes he (.inl ha) _ (.bind (.result _) fun v => ?_)
    cases v with
    | none => exact .throw _
    | some v => exact .bind (fun _ => rfl) fun _ => .pure _
  | deleteValue =>
    refine captureValue_notes he (.inr ha) _ (.bind (fun _ => rfl) fun b => ?_)
    cases b <;> exact .pure _

theorem runService_notes (he : e.mutator = Machine.mutator) (op : ServiceOperation) :
    Notes servicesPart slot m (op.Notes m) (e.runService slot op) := by
  have hquery : e.mutator.queryService = Machine.queryService := by rw [he]; rfl
  rw [runService, hquery]
  refine .ask_bind fun snapshot hx => ?_
  obtain ⟨n, hn, hx⟩ := ok_of_bind hx
  cases hx
  unfold Machine.snapshot
  cases hs : Assoc.get? n m.services with
  | none => exact .throw_bind _ _
  | some x =>
    simp only [Bool.not_true, Bool.false_eq_true, if_false]
    rw [Act.discard_bind]
    refine .capture_bind ⟨n, x, hn, hs, rfl⟩ (fun _ _ => rfl) fun _ => ?_
    refine .bind (.result _) fun w => ?_
    rw [Act.discard_bind]
    exact .bind (fun _ => rfl) fun _ => .pure _

theorem runTransfer_notes (he : e.mutator = Machine.mutator) {op : FileOperation}
    (ha : op.action = .rename ∨ op.action = .copy) (w : Write) :
    Notes filesPart slot m (op.Notes m) (e.runTransfer slot op w) := by
  have hexists : e.mutator.pathExists = Machine.pathExists := by rw [he]; rfl
  have hnoted : op.noted = op.target := by
    rcases ha with ha | ha <;> rw [FileOperation.noted, ha]
  rw [runTransfer, hexists]
  split
  · exact .throw_bind _ _
  · refine .ask_bind fun existed hx => ?_
    rw [Act.discard_bind]
    refine .capture_bind ⟨hnoted ▸ hx, .inl rfl⟩ (fun _ _ => rfl) fun _ => ?_
    rw [Act.discard_bind]
    exact .bind (fun _ => rfl) fun _ => .pure _

/-- What is noted of a path. -/
theorem captureFile_notes (he : e.mutator = Machine.mutator) {op : FileOperation}
    (hnoted : op.noted = op.path) {k : Bool × Bool → Work Machine (Option String)}
    (hk : ∀ x, Act.Keeps filesPart.get (k x)) :
    Notes filesPart slot m (op.Notes m) (e.captureFile slot op >>= k) := by
  have hexists : e.mutator.pathExists = Machine.pathExists := by rw [he]; rfl
  have hread : e.mutator.readText = Machine.readText := by rw [he]; rfl
  rw [captureFile, hexists, hread, bind_assoc]
  refine .ask_bind fun existed hx => ?_
  split
  · rw [bind_assoc]
    refine .ask_bind fun content hcontent => ?_
    cases hcontent
    rw [bind_assoc]
    exact .capture_bind ⟨hnoted ▸ hx, .inr (by rw [hnoted])⟩ (fun _ _ => rfl) fun kept => hk _
  · rw [pure_bind, bind_assoc]
    exact .capture_bind ⟨hnoted ▸ hx, .inl rfl⟩ (fun _ _ => rfl) fun kept => hk _

theorem runFile_notes (he : e.mutator = Machine.mutator) (op : FileOperation) :
    Notes filesPart slot m (op.Notes m) (e.runFile slot op) := by
  unfold runFile
  cases ha : op.action with
  | setAttributes | takeOwnership => exact .throw _
  | rename => exact runTransfer_notes he (.inl ha) _
  | copy => exact runTransfer_notes he (.inr ha) _
  | delete =>
    refine captureFile_notes he (by rw [FileOperation.noted, ha]) fun x => ?_
    obtain ⟨existed, kept⟩ := x
    dsimp only
    split
    · exact .pure _
    · split
      · exact .bind (fun _ => rfl) fun _ => .bind (fun _ => rfl) fun _ => .pure _
      · exact .bind (fun _ => rfl) fun _ => .pure _
  | createFile | createDirectory =>
    dsimp only
    rw [Act.discard_bind]
    refine captureFile_notes he (by rw [FileOperation.noted, ha]) fun _ => ?_
    exact .bind (fun _ => rfl) fun _ => .pure _

end Engine

/-! ## Restoring from a note that tells what was there -/

namespace RegistryOperation

/-- Two machines agree on what an operation that goes to `target` works on: a value, or the
keys at and below one. -/
def SameTargets (op : RegistryOperation) (target : Hive × Datum) (m m' : Machine) : Prop :=
  ∀ p, Machine.folded target.2 = .ok p → match op.action with
    | .createKey | .deleteKey =>
      ∀ k, Machine.atOrBelow target.1 p k = true → m'.hasKey k = m.hasKey k
    | .setValue | .deleteValue => ∀ n, Machine.foldedName op.valueName = .ok n →
      m'.stored (target.1, p) n = m.stored (target.1, p) n

/-- The note of an operation that goes to `target` tells what is there: the value is missing
or shown, and a key to be created is there or has nothing below it. -/
def Told (op : RegistryOperation) (target : Hive × Datum) (m : Machine) : Prop :=
  ∀ p, Machine.folded target.2 = .ok p → match op.action with
    | .deleteKey => True
    | .createKey => m.hasKey (target.1, p) = true ∨
      ∀ k, Machine.atOrBelow target.1 p k = true → m.hasKey k = false
    | .setValue | .deleteValue => ∀ n, Machine.foldedName op.valueName = .ok n →
      m.Shows (target.1, p) n

end RegistryOperation

/-- Two machines agree on the service that an operation works on. -/
def ServiceOperation.SameTargets (op : ServiceOperation) (m m' : Machine) : Prop :=
  ∀ n, Machine.folded op.service = .ok n → Assoc.get? n m'.services = Assoc.get? n m.services

namespace FileOperation

/-- Two machines agree on the paths that an operation works on. -/
def SameTargets (op : FileOperation) (m m' : Machine) : Prop :=
  ∀ path ∈ [op.path, op.target, op.backup],
    m'.hasPath path = m.hasPath path ∧ m'.fileText path = m.fileText path

/-- The note of an operation tells what is there: a target to be renamed to is free, and so is
a backup to be made. -/
def Told (op : FileOperation) (m : Machine) : Prop :=
  match op.action with
  | .rename => m.hasPath op.target ≠ .ok true
  | .delete => op.backup.truthy = true → m.hasPath op.backup ≠ .ok true
  | _ => True

end FileOperation

namespace Machine

theorem atOrBelow_self (k : Hive × String) : atOrBelow k.1 k.2 k = true := by
  simp [atOrBelow]

/-- What is noted of a shown value is what is stored. -/
theorem Shows.noted {m : Machine} {key : Hive × String} {n : String} (h : m.Shows key n)
    (keyExisted : Bool) :
    (m.stored key n = none ∧ (RegistryCapture.of (m.reading key.1 key.2 n).valueExists
        (m.reading key.1 key.2 n).value? keyExisted).existed = false) ∨
      ∃ v, m.stored key n = some (some v) ∧ RegistryCapture.of
        (m.reading key.1 key.2 n).valueExists (m.reading key.1 key.2 n).value? keyExisted =
          ⟨true, keyExisted, some v⟩ := by
  rcases h with h | ⟨v, hv⟩
  · exact .inl ⟨h, reading_of_missing h⟩
  · refine .inr ⟨v, stored_of_reading hv, ?_⟩
    rw [hv]
    rfl

end Machine

namespace Engine

variable {e : Engine Machine} {slot : Slot} {m m₀ : Machine}

/-- The write that restores a shown value would leave the machine as it is. -/
theorem idle_restoringValue {op : RegistryOperation} {target : Hive × Datum}
    {c : RegistryCapture} (ha : op.action = .setValue ∨ op.action = .deleteValue)
    (hc : op.Notes target m₀ c) (hsame : op.SameTargets target m₀ m) (htold : op.Told target m₀)
    {w : Write} (hw : restoringWrite op c target.1 target.2 = some w) : m.Idle w := by
  obtain ⟨p, hp, hc⟩ := hc
  have hsame := hsame p hp
  have htold := htold p hp
  have hshown : ∃ n, Machine.foldedName op.valueName = .ok n ∧
      m.stored (target.1, p) n = m₀.stored (target.1, p) n ∧
      ((m₀.stored (target.1, p) n = none ∧ c.existed = false) ∨
        ∃ v, m₀.stored (target.1, p) n = some (some v) ∧ c.existed = true ∧ c.value = some v) := by
    rcases ha with ha | ha
    all_goals
      simp only [ha] at hc hsame htold
      obtain ⟨n, hn, rfl⟩ := hc
      refine ⟨n, hn, hsame n hn, ((htold n hn).noted _).imp id ?_⟩
      rintro ⟨v, hv, hnote⟩
      exact ⟨v, hv, by rw [hnote], by rw [hnote]⟩
  obtain ⟨n, hn, hstored, hnote⟩ := hshown
  have heq : ∀ {p' n'}, Machine.folded target.2 = .ok p' → Machine.foldedName op.valueName = .ok n' →
      m.stored (target.1, p') n' = m₀.stored (target.1, p) n := fun hp' hn' => by
    rw [← Except.ok.inj (hp.symm.trans hp'), ← Except.ok.inj (hn.symm.trans hn'), hstored]
  have hwrite := restoringWrite_value c target.1 target.2 ha
  rcases hnote with ⟨hnone, hexisted⟩ | ⟨v, hv, hexisted, hvalue⟩
  · rw [hwrite, RegistryCapture.content, hexisted] at hw
    cases hw
    exact Machine.idle_deleteValue fun p' n' hp' hn' => (heq hp' hn').trans hnone
  · rw [hwrite, RegistryCapture.content, hexisted, hvalue] at hw
    cases hw
    exact Machine.idle_setValue fun p' n' hp' hn' => (heq hp' hn').trans hv

/-- The write that restores a registry operation would leave the machine as it is. -/
theorem idle_restoringWrite {op : RegistryOperation} {target : Hive × Datum}
    {c : RegistryCapture} (hc : op.Notes target m₀ c) (hsame : op.SameTargets target m₀ m)
    (htold : op.Told target m₀) {w : Write} (hw : restoringWrite op c target.1 target.2 = some w) :
    m.Idle w := by
  cases ha : op.action with
  | setValue => exact idle_restoringValue (.inl ha) hc hsame htold hw
  | deleteValue => exact idle_restoringValue (.inr ha) hc hsame htold hw
  | createKey =>
    obtain ⟨p, hp, hc⟩ := hc
    have hsame := hsame p hp
    have htold := htold p hp
    simp only [ha] at hc hsame htold
    rw [restoringWrite, ha, hc] at hw
    dsimp only [RegistryCapture.of] at hw
    cases hthere : m₀.hasKey (target.1, p) with
    | true =>
      rw [hthere] at hw
      cases hw
    | false =>
      rw [hthere] at hw htold
      cases hw
      refine Machine.idle_deleteKey fun p' hp' k hk => ?_
      obtain rfl : p = p' := Except.ok.inj (hp.symm.trans hp')
      rw [hsame k hk]
      exact htold.resolve_left Bool.false_ne_true k hk
  | deleteKey =>
    obtain ⟨p, hp, hc⟩ := hc
    have hsame := hsame p hp
    simp only [ha] at hc hsame
    rw [restoringWrite, ha, hc] at hw
    dsimp only [RegistryCapture.of] at hw
    cases hthere : m₀.hasKey (target.1, p) with
    | true =>
      rw [hthere] at hw
      cases hw
      refine Machine.idle_createKey fun p' hp' => ?_
      obtain rfl : p = p' := Except.ok.inj (hp.symm.trans hp')
      rw [hsame (target.1, p) (Machine.atOrBelow_self (target.1, p)), hthere]
    | false =>
      rw [hthere] at hw
      cases hw

theorem restoreRegistry_idle (he : e.mutator = Machine.mutator) (op : RegistryOperation)
    {s : Session Machine} (hc : ∀ c, Assoc.get? slot s.memory.registry = some c →
      op.Notes (e.destination op.hive op.keyPath) m₀ c)
    (hsame : op.SameTargets (e.destination op.hive op.keyPath) m₀ s.core.machine)
    (htold : op.Told (e.destination op.hive op.keyPath) m₀) :
    ((e.restoreRegistry slot op).on s).2.core.machine = s.core.machine := by
  have hcaptured : (captured? registryPart slot).on s =
      (.ok (Assoc.get? slot s.memory.registry), s) := rfl
  rw [restoreRegistry, Act.on_bind, hcaptured]
  cases hget : Assoc.get? slot s.memory.registry with
  | none => rfl
  | some c =>
    have hrelease :
        Leaves s.core.machine (do release registryPart slot; return (none : Option String)) :=
      (Leaves.release _ _ fun _ _ => rfl).bind fun _ => .pure _
    refine Leaves.resolve_bind he ?_ s rfl
    dsimp only
    cases hw : restoringWrite op c _ _ with
    | none => exact hrelease
    | some w =>
      have hidle := idle_restoringWrite (hc c hget) hsame htold hw
      exact ((Leaves.write he hidle).discard).bind fun _ => hrelease

/-- A service in its state has nothing to be brought to. -/
theorem stateWrite_self (service : Datum) (x : RunState) : stateWrite service (some x) x = none := by
  have hrun : ¬(some x = some .running ∧ x ≠ .running) := fun h => h.2 (Option.some.inj h.1)
  have hstop : ¬(some x = some .stopped ∧ x = .running) := by
    rintro ⟨h, rfl⟩
    cases h
  rw [stateWrite, if_neg hrun, if_neg hstop]

/-- Bringing a service to the state that it is in changes nothing. -/
theorem leaves_stateBack (hquery : e.mutator.queryService = Machine.queryService) (slot : Slot)
    {service : Datum} {n : String} {x : Machine.Service}
    (hn : Machine.folded service = .ok n) (hx : Assoc.get? n m.services = some x) :
    Leaves m (do
      let current ← onHost (e.mutator.queryService service)
      match stateWrite service (some x.state) current.state with
      | some w => discard (e.write w)
      | none => Pure.pure ()
      release servicesPart slot
      return (none : Option String)) := by
  rw [hquery]
  refine .ask_bind fun snapshot hsnapshot => ?_
  obtain ⟨n', hn', hsnapshot⟩ := ok_of_bind hsnapshot
  cases hsnapshot
  obtain rfl : n = n' := Except.ok.inj (hn.symm.trans hn')
  rw [Machine.snapshot, hx]
  dsimp only
  rw [stateWrite_self]
  exact (Leaves.release _ _ fun _ _ => rfl).bind fun _ => .pure _

theorem restoreService_idle (he : e.mutator = Machine.mutator) (op : ServiceOperation)
    {s : Session Machine} (hc : ∀ c, Assoc.get? slot s.memory.services = some c → op.Notes m₀ c)
    (hsame : op.SameTargets m₀ s.core.machine) :
    ((e.restoreService slot op).on s).2.core.machine = s.core.machine := by
  have hquery : e.mutator.queryService = Machine.queryService := by rw [he]; rfl
  have hcaptured : (captured? servicesPart slot).on s =
      (.ok (Assoc.get? slot s.memory.services), s) := rfl
  rw [restoreService, Act.on_bind, hcaptured]
  cases hget : Assoc.get? slot s.memory.services with
  | none => rfl
  | some c =>
    obtain ⟨n, x, hn, hx, rfl⟩ := hc c hget
    have hx' : Assoc.get? n s.core.machine.services = some x := (hsame n hn).trans hx
    have hstate := leaves_stateBack hquery slot hn hx'
    dsimp only
    refine (?_ : Leaves s.core.machine _) s rfl
    split
    · refine .bind (.write he (Machine.idle_setStartup fun n' y hn' hy => ?_)) fun _ => hstate
      obtain rfl : n = n' := Except.ok.inj (hn.symm.trans hn')
      rw [Option.some.inj (hy.symm.trans hx')]
    · exact hstate

/-- Looking for a path leaves the machine as it is, and tells whether it is there. -/
theorem exists_leaves (he : e.mutator = Machine.mutator) {path : Datum} {α : Type}
    {k : Bool → Work Machine α} (hk : ∀ b, m.hasPath path = .ok b → Leaves m (k b)) :
    Leaves m (onHost (e.mutator.pathExists path) >>= k) := by
  have hexists : e.mutator.pathExists = Machine.pathExists := by rw [he]; rfl
  rw [hexists]
  exact .ask_bind hk

/-- A path that was missing before is still missing, so that there is nothing to delete. -/
theorem deleteNew_idle (he : e.mutator = Machine.mutator) {path : Datum} {existed : Bool}
    (h : m.hasPath path = .ok existed) : Leaves m (do
      if !existed then
        if ← onHost (e.mutator.pathExists path) then e.write (.deletePath path)) := by
  cases existed with
  | true => exact .pure _
  | false =>
    refine exists_leaves he fun there hthere => ?_
    cases h.symm.trans hthere
    exact .pure _

variable {op : FileOperation} {c : FileCapture}

/-- Writing back the noted content of a file that has this content. -/
theorem writeBack_idle (he : e.mutator = Machine.mutator) (hc : op.Notes m₀ c)
    (hsame : op.SameTargets m₀ m) (hnoted : op.noted = op.path) (hnull : c.content.isNull = false) :
    Leaves m (e.write (.writeFile op.path c.content op.createDirectories)) := by
  refine .write he (Machine.idle_writeFile ?_ hnull)
  rcases hc.2 with h | h
  · rw [h] at hnull
    cases hnull
  · rw [h, hnoted, (hsame op.path (by simp)).2]

/-- Undoing a deletion that had no effect: there is no backup to move back. -/
theorem undelete_idle (he : e.mutator = Machine.mutator) (ha : op.action = .delete)
    (hc : op.Notes m₀ c) (hsame : op.SameTargets m₀ m) (htold : op.Told m₀) :
    Leaves m (e.undelete op c) := by
  have hnoted : op.noted = op.path := by rw [FileOperation.noted, ha]
  rw [FileOperation.Told, ha] at htold
  have hcontents : Leaves m (do
      if c.existed then
        if c.content.isNull then
          throw (.refused
            ("Content of " ++ op.path.display ++ " was not captured and cannot be restored"))
        e.write (.writeFile op.path c.content op.createDirectories)) := by
    split
    · split
      · exact .throw_bind _ _
      · next hnull => exact writeBack_idle he hc hsame hnoted (Bool.eq_false_iff.mpr hnull)
    · exact .pure _
  rw [undelete]
  split
  · next hkept =>
    refine exists_leaves he fun there hthere => ?_
    rw [(hsame op.backup (by simp)).1] at hthere
    cases there with
    | true => exact absurd hthere (htold (Bool.and_eq_true_iff.mp hkept).2)
    | false => exact hcontents
  · exact hcontents

/-- Undoing a file operation by a note that tells what was there. -/
theorem undoFile_idle (he : e.mutator = Machine.mutator) (hc : op.Notes m₀ c)
    (hsame : op.SameTargets m₀ m) (htold : op.Told m₀) : Leaves m (e.undoFile op c) := by
  have hpath := (hsame op.path (by simp)).1
  have htarget := (hsame op.target (by simp)).1
  unfold undoFile
  cases ha : op.action with
  | setAttributes | takeOwnership => exact .pure _
  | delete => exact undelete_idle he ha hc hsame htold
  | createFile =>
    have hnoted : op.noted = op.path := by rw [FileOperation.noted, ha]
    dsimp only
    split
    · next hmissing =>
      have hmissing : c.existed = false := by simpa using hmissing
      refine .write he (Machine.idle_deletePath ?_)
      rw [hpath, ← hnoted, hc.1, hmissing]
    · split
      · next hnull => exact writeBack_idle he hc hsame hnoted (by simpa using hnull)
      · exact .pure _
  | createDirectory =>
    have hnoted : op.noted = op.path := by rw [FileOperation.noted, ha]
    exact deleteNew_idle he (by rw [hpath, ← hnoted, hc.1])
  | rename =>
    rw [FileOperation.Told, ha] at htold
    refine exists_leaves he fun there hthere => ?_
    rw [htarget] at hthere
    cases there with
    | true => exact absurd hthere htold
    | false => exact .pure _
  | copy =>
    have hnoted : op.noted = op.target := by rw [FileOperation.noted, ha]
    exact deleteNew_idle he (by rw [htarget, ← hnoted, hc.1])

theorem restoreFile_idle (he : e.mutator = Machine.mutator) (op : FileOperation)
    {s : Session Machine} (hc : ∀ c, Assoc.get? slot s.memory.files = some c → op.Notes m₀ c)
    (hsame : op.SameTargets m₀ s.core.machine) (htold : op.Told m₀) :
    ((e.restoreFile slot op).on s).2.core.machine = s.core.machine := by
  have hcaptured : (captured? filesPart slot).on s =
      (.ok (Assoc.get? slot s.memory.files), s) := rfl
  unfold restoreFile
  split
  · rfl
  · rfl
  · rw [Act.on_bind, hcaptured]
    cases hget : Assoc.get? slot s.memory.files with
    | none => rfl
    | some c =>
      exact ((undoFile_idle he (hc c hget) hsame htold).bind fun _ =>
        (Leaves.release _ _ fun _ _ => rfl).bind fun _ => .pure _) s rfl

end Engine

/-! ## Operations of any sort -/

/-- What an operation notes. -/
inductive Note
  | registry (c : RegistryCapture)
  | service (c : ServiceCapture)
  | file (c : FileCapture)

/-- An operation that is restored from what it has noted. -/
inductive Operation
  | registry (op : RegistryOperation)
  | service (op : ServiceOperation)
  | file (op : FileOperation)

namespace Operation

/-- Runs an operation. -/
def run (e : Engine Machine) (slot : Slot) : Operation → Work Machine (Option String)
  | registry op => e.runRegistry slot op
  | service op => e.runService slot op
  | file op => e.runFile slot op

/-- Restores what an operation changed. -/
def restore (e : Engine Machine) (slot : Slot) : Operation → Work Machine (Option String)
  | registry op => e.restoreRegistry slot op
  | service op => e.restoreService slot op
  | file op => e.restoreFile slot op

/-- What is noted for an operation. -/
def note? (slot : Slot) (c : Memory) : Operation → Option Note
  | registry _ => (Assoc.get? slot c.registry).map .registry
  | service _ => (Assoc.get? slot c.services).map .service
  | file _ => (Assoc.get? slot c.files).map .file

/-- Two machines agree on what an operation works on. -/
def SameTargets (e : Engine Machine) (m m' : Machine) : Operation → Prop
  | registry op => op.SameTargets (e.destination op.hive op.keyPath) m m'
  | service op => op.SameTargets m m'
  | file op => op.SameTargets m m'

/-- The note of an operation tells what is there. -/
def Told (e : Engine Machine) (m : Machine) : Operation → Prop
  | registry op => op.Told (e.destination op.hive op.keyPath) m
  | service _ => True
  | file op => op.Told m

variable {e : Engine Machine} {slot : Slot} {s s₁ s₂ : Session Machine}

/-- A note that is found after a while is the one that was made. -/
theorem note_made {α : Type} {sort : α → Note} (hsort : ∀ a b, sort a = sort b → a = b)
    {before after : Option α} (h : after.map sort = none ∨ after.map sort = before.map sort) {c : α}
    (hc : after = some c) : before = some c := by
  subst hc
  rcases h with h | h
  · cases h
  · exact (Option.map_injective (fun _ _ => hsort _ _) h).symm

/-- **Reverting an operation that had no effect does nothing**, if its note tells what was
there.  However running it has ended, on whatever machine: when it has left the machine as it
was, and its targets are as they were, restoring it from its note leaves the machine exactly
as it is. -/
theorem restore_idle (he : e.mutator = Machine.mutator) (op : Operation)
    {r : Except Failure (Option String)} (hnew : op.note? slot s.memory = none)
    (hrun : (op.run e slot).on s = (r, s₁)) (hidle : s₁.core.machine = s.core.machine)
    (hnote : op.note? slot s₂.memory = none ∨ op.note? slot s₂.memory = op.note? slot s₁.memory)
    (hsame : op.SameTargets e s₁.core.machine s₂.core.machine) (htold : op.Told e s.core.machine) :
    ((op.restore e slot).on s₂).2.core.machine = s₂.core.machine := by
  have h₁ : s₁ = ((op.run e slot).on s).2 := by rw [hrun]
  rw [hidle] at hsame
  cases op with
  | registry op =>
    refine Engine.restoreRegistry_idle he op (fun c hc => ?_) hsame htold
    have hmade := note_made (fun _ _ => Note.registry.inj) hnote hc
    rw [h₁] at hmade
    exact Engine.runRegistry_notes he op s rfl (Option.map_eq_none_iff.mp hnew) c hmade
  | service op =>
    refine Engine.restoreService_idle he op (fun c hc => ?_) hsame
    have hmade := note_made (fun _ _ => Note.service.inj) hnote hc
    rw [h₁] at hmade
    exact Engine.runService_notes he op s rfl (Option.map_eq_none_iff.mp hnew) c hmade
  | file op =>
    refine Engine.restoreFile_idle he op (fun c hc => ?_) hsame htold
    have hmade := note_made (fun _ _ => Note.file.inj) hnote hc
    rw [h₁] at hmade
    exact Engine.runFile_notes he op s rfl (Option.map_eq_none_iff.mp hnew) c hmade

end Operation

/-! ## A renaming that fails -/

section

/-- A session on a machine with files on which nothing can be moved. -/
def stuckSession (files : Assoc String Datum) : Session Machine :=
  { host := { machine :=
      { files
        faults := fun r => match r with
          | .write (.movePath ..) => some (.system (.stated .other "move_path failed"))
          | _ => none } } }

/-- The session when everything can be moved again. -/
def Session.freed (s : Session Machine) : Session Machine :=
  { s with host := { s.host with machine := { s.host.machine with faults := fun _ => none } } }

/-- Renames `a` to `b`. -/
def sampleRenaming : Operation :=
  .file { path := .text "a", target := .text "b", action := .rename }

/-- The place of the renaming. -/
def sampleSlot : Slot := ⟨"t", .apply, 0⟩

/-- A session after the renaming has been tried. -/
def tried (files : Assoc String Datum) : Session Machine :=
  ((sampleRenaming.run { mutator := Machine.mutator } sampleSlot).on (stuckSession files)).2

theorem run_sampleRenaming (files : Assoc String Datum) :
    (sampleRenaming.run { mutator := Machine.mutator } sampleSlot).on (stuckSession files) =
      (.error (.system (.stated .other "move_path failed")), tried files) := rfl

/-- When the target is free, nothing is moved back. -/
theorem sample_left_alone :
    let e : Engine Machine := { mutator := Machine.mutator }
    let files : Assoc String Datum := [("a", .text "new")]
    sampleRenaming.note? sampleSlot (stuckSession files).memory = none ∧
      sampleRenaming.Told e (stuckSession files).core.machine ∧
      ((sampleRenaming.restore e sampleSlot).on (tried files).freed).2.core.machine =
        (tried files).freed.core.machine := by
  intro e files
  have htold : sampleRenaming.Told e (stuckSession files).core.machine := by
    show Machine.hasPath _ _ ≠ _
    decide +kernel
  exact ⟨rfl, htold, sampleRenaming.restore_idle rfl (s := stuckSession files) rfl
    (run_sampleRenaming files) rfl (.inr rfl) (fun _ _ => ⟨rfl, rfl⟩) htold⟩

/-- When the target is taken, reverting moves it to the source, over the file that is there. -/
theorem sample_moved :
    let e : Engine Machine := { mutator := Machine.mutator }
    let files : Assoc String Datum := [("a", .text "new"), ("b", .text "kept")]
    ∃ f, (sampleRenaming.run e sampleSlot).on (stuckSession files) = (.error f, tried files) ∧
      f.isOperational = true ∧
      (tried files).core.machine = (stuckSession files).core.machine ∧
      sampleRenaming.note? sampleSlot (stuckSession files).memory = none ∧
      sampleRenaming.SameTargets e (tried files).core.machine (tried files).freed.core.machine ∧
      (tried files).freed.core.machine.files = files ∧
      ((sampleRenaming.restore e sampleSlot).on (tried files).freed).2.core.machine.files =
        [("a", .text "kept")] :=
  ⟨_, run_sampleRenaming _, rfl, rfl, rfl, fun _ _ => ⟨rfl, rfl⟩, rfl, rfl⟩

end
end TweakEngine
