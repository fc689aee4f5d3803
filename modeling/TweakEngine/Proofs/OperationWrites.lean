/-
# The writes of operations

On a machine that refuses no request every operation either fails before it changes anything
or carries out one write.  `RegistryOperation.writeAt` and `ServiceOperation.writeOn` say
which of both, and which write, and `Engine.Carries` that running the operation does so.
What happens does not depend on what has been captured, so that `Engine.Yields` speaks of the
machine alone.
-/

import TweakEngine.Proofs.MachineSteps

namespace TweakEngine

open Session

/-- A chain fails when its first part does or its second part does. -/
theorem error_or_ok_of_bind {α β : Type} {x : Except Failure α} {k : α → Except Failure β}
    {f : Failure} (h : x >>= k = .error f) : x = .error f ∨ ∃ a, x = .ok a ∧ k a = .error f := by
  cases x with
  | error f' => exact .inl (congrArg _ (Except.error.inj h))
  | ok a => exact .inr ⟨a, rfl, h⟩

namespace Engine

namespace Yields

variable {m : Machine} {α β : Type} {Q : Except Failure α → Machine → Prop} {e : Engine Machine}

/-- A machine that refuses nothing answers what it is asked. -/
theorem ask_bind (hm : m.Willing) {r : Request} {f : Machine → Except Failure β}
    {k : β → Work Machine α} (herror : ∀ e, f m = .error e → Q (.error e) m)
    (hok : ∀ x, f m = .ok x → Yields m (k x) Q) : Yields m (onHost (Machine.ask r f) >>= k) Q :=
  .answer_bind (fun e he => herror e (by rwa [Machine.answer_of_none (hm r)] at he))
    fun x hx => hok x (Machine.ok_of_answer hx)

/-- A machine that refuses nothing carries out what it can. -/
theorem write (he : e.mutator = Machine.mutator) (hm : m.Willing) {w : Write}
    {Q : Except Failure w.Reply → Machine → Prop}
    (herror : ∀ f, m.apply w = .error f → Q (.error f) m)
    (hok : ∀ x m', m.apply w = .ok (x, m') → Q (.ok x) m') : Yields m (e.write w) Q := by
  have hperform : e.write w = onHost (Machine.perform w) := by rw [Engine.write, he]; rfl
  intro s hs
  subst hs
  obtain ⟨s', hs', hcore⟩ := perform_on hm w
  rw [hperform, hs', hcore]
  revert herror hok
  cases s.core.machine.apply w with
  | error f => exact fun herror _ => herror f rfl
  | ok x => exact fun _ hok => hok x.1 x.2 rfl

theorem write_bind (he : e.mutator = Machine.mutator) (hm : m.Willing) {w : Write} {x : w.Reply}
    {m' : Machine} (ha : m.apply w = .ok (x, m')) {k : w.Reply → Work Machine α}
    (h : Yields m' (k x) Q) : Yields m (e.write w >>= k) Q := by
  refine .bind (.write he hm (fun f hf => ?_) fun y m'' hy => ?_)
  · rw [ha] at hf
    cases hf
  · cases ha.symm.trans hy
    refine ⟨nofun, fun z hz => ?_⟩
    cases hz
    exact h

theorem write_bind_error (he : e.mutator = Machine.mutator) (hm : m.Willing) {w : Write}
    {f : Failure} (ha : m.apply w = .error f) {k : w.Reply → Work Machine α} (h : Q (.error f) m) :
    Yields m (e.write w >>= k) Q := by
  refine .bind (.write he hm (fun f' hf => ?_) fun y m' hy => ?_)
  · cases ha.symm.trans hf
    refine ⟨fun f' hf' => ?_, nofun⟩
    cases hf'
    exact h
  · rw [ha] at hy
    cases hy

end Yields

/-- The action carries out a write, or fails and leaves the machine as it is. -/
def Carries {α : Type} (m : Machine) (plan : Except Failure Write) (r : Except Failure α)
    (m' : Machine) : Prop :=
  match plan with
  | .error f => goesOn r = f.isOperational ∧ m' = m
  | .ok w => goesOn r = true ∧ ∃ x, m.apply w = .ok (x, m')

end Engine

/-! ## The writes of operations -/

/-- The stored forms of a path and a value name. -/
def Machine.cellNames (path name : Datum) : Except Failure (String × String) := do
  return (← folded path, ← foldedName name)

theorem Machine.of_cellNames {path name : Datum} {x : String × String}
    (h : cellNames path name = .ok x) :
    path.IsText ∧ foldedName name = .ok (nameOf name) := by
  obtain ⟨p, hp, h⟩ := ok_of_bind h
  obtain ⟨n, hn, -⟩ := ok_of_bind h
  obtain ⟨text, rfl, -⟩ := eq_text_of_folded hp
  exact ⟨⟨text, rfl⟩, eq_nameOf_of_foldedName hn ▸ hn⟩

/-- The write of an operation on the registry at a place, or the failure that comes before. -/
def RegistryOperation.writeAt (op : RegistryOperation) (place : Hive × Datum) :
    Except Failure Write :=
  match op.action with
  | .createKey => do
    discard (Machine.folded place.2)
    return .createKey place.1 place.2
  | .deleteKey => do
    discard (Machine.folded place.2)
    return .deleteKey place.1 place.2
  | .setValue => do
    discard (Machine.cellNames place.2 op.valueName)
    match ← op.resolveValue with
    | none => throw (.malformed .noValue)
    | some v => return .setValue place.1 place.2 op.valueName v
  | .deleteValue => do
    discard (Machine.cellNames place.2 op.valueName)
    return .deleteValue place.1 place.2 op.valueName

/-- The write of an operation on a service, or the failure that comes before. -/
def ServiceOperation.writeOn (op : ServiceOperation) (m : Machine) : Except Failure Write := do
  let name ← Machine.folded op.service
  if Assoc.has name m.services then Engine.serviceWrite op
  else throw (.refused ("Service not found: " ++ op.service.display))

namespace Engine

variable {e : Engine Machine} {m m₀ : Machine} {slot : Slot}

theorem runKey_carries (he : e.mutator = Machine.mutator) (hm : m.Willing) (hive : Hive)
    (path : Datum) (create : Bool) : Yields m (e.runKey slot hive path create) (Carries m (do
      discard (Machine.folded path)
      return if create then .createKey hive path else .deleteKey hive path)) := by
  have hkey : e.mutator.keyExists = Machine.keyExists := by rw [he]; rfl
  unfold runKey
  rw [hkey]
  refine .ask_bind hm (fun f hf => ?_) fun existed hexisted => ?_
  · rcases error_or_ok_of_bind hf with hp | ⟨p, -, hp⟩
    · rw [hp]
      exact ⟨rfl, rfl⟩
    · cases hp
  · obtain ⟨p, hp, -⟩ := ok_of_bind hexisted
    obtain ⟨text, rfl, rfl⟩ := Machine.eq_text_of_folded hp
    rw [Act.discard_bind]
    refine .capture_bind (fun _ _ => rfl) fun _ => ?_
    cases create with
    | true =>
      obtain ⟨x, m', ha, -⟩ := m.apply_createKey hive ⟨text, rfl⟩
      simp only [if_true]
      rw [Act.discard_bind]
      exact .write_bind he hm ha (.pure ⟨rfl, x, ha⟩)
    | false =>
      obtain ⟨x, m', ha, -⟩ := m.apply_deleteKey hive ⟨text, rfl⟩
      simp only [Bool.false_eq_true, if_false]
      refine .write_bind he hm ha ?_
      cases x <;> exact .pure ⟨rfl, _, ha⟩

theorem captureValue_bind (he : e.mutator = Machine.mutator) (hm : m.Willing) {α : Type}
    {hive : Hive} {path name : Datum} {k : PUnit → Work Machine α}
    {Q : Except Failure α → Machine → Prop}
    (herror : ∀ f, Machine.cellNames path name = .error f → Q (.error f) m)
    (hok : ∀ x, Machine.cellNames path name = .ok x → Yields m (k ()) Q) :
    Yields m (e.captureValue slot hive path name >>= k) Q := by
  have hread : e.mutator.readValue = Machine.readValue := by rw [he]; rfl
  have hreading : (fun m : Machine => do
      return m.reading hive (← Machine.folded path) (← Machine.foldedName name)) =
      fun m => (fun x => m.reading hive x.1 x.2) <$> Machine.cellNames path name := by
    funext m
    unfold Machine.cellNames
    cases Machine.folded path <;> cases Machine.foldedName name <;> rfl
  unfold captureValue
  rw [hread, bind_assoc, Machine.readValue, hreading]
  refine .ask_bind hm (fun f hf => ?_) fun reading hr => ?_
  · cases hnames : Machine.cellNames path name with
    | error f' => rw [hnames] at hf; cases hf; exact herror f hnames
    | ok x => rw [hnames] at hf; cases hf
  · cases hnames : Machine.cellNames path name with
    | error f' => rw [hnames] at hr; cases hr
    | ok x =>
      rw [Act.discard_bind]
      exact .capture_bind (fun _ _ => rfl) fun _ => hok x hnames

theorem runRegistry_carries (he : e.mutator = Machine.mutator) (hm : m.Willing)
    (op : RegistryOperation) : Yields m (e.runRegistry slot op)
      (Carries m (e.placeOn m op.hive op.keyPath >>= op.writeAt)) := by
  unfold runRegistry
  refine .resolve_bind he (fun f hf => ?_) fun place hplace => ?_
  · rw [hf]
    exact ⟨rfl, rfl⟩
  obtain ⟨hive, path⟩ := place
  rw [hplace, ok_bind]
  unfold RegistryOperation.writeAt
  cases ha : op.action with
  | createKey => exact runKey_carries he hm hive path true
  | deleteKey => exact runKey_carries he hm hive path false
  | setValue =>
    refine captureValue_bind he hm (fun f hf => ?_) fun x hnames => ?_
    · dsimp only
      rw [hf]
      exact ⟨rfl, rfl⟩
    obtain ⟨hp, hn⟩ := Machine.of_cellNames hnames
    dsimp only
    rw [hnames]
    refine .result_bind (fun f hf => ?_) fun v? hv => ?_
    · rw [hf]
      exact ⟨rfl, rfl⟩
    rw [hv]
    cases v? with
    | none => exact .throw ⟨rfl, rfl⟩
    | some v =>
      obtain ⟨m', ha, -⟩ := m.apply_setValue hive hp hn v
      exact .write_bind he hm ha (.pure ⟨rfl, (), ha⟩)
  | deleteValue =>
    refine captureValue_bind he hm (fun f hf => ?_) fun x hnames => ?_
    · dsimp only
      rw [hf]
      exact ⟨rfl, rfl⟩
    obtain ⟨hp, hn⟩ := Machine.of_cellNames hnames
    obtain ⟨b, m', ha, -⟩ := m.apply_deleteValue hive hp hn
    dsimp only
    rw [hnames]
    refine .write_bind he hm ha ?_
    cases b <;> exact .pure ⟨rfl, _, ha⟩

/-- The writes of services go through when the service is there. -/
theorem apply_serviceWrite {op : ServiceOperation} {w : Write} (hw : serviceWrite op = .ok w)
    {name : String} (hn : Machine.folded op.service = .ok name)
    (hhas : Assoc.has name m.services = true) : ∃ x m', m.apply w = .ok (x, m') := by
  obtain ⟨text, ht, rfl⟩ := Machine.eq_text_of_folded hn
  obtain ⟨x, hx⟩ := Option.isSome_iff_exists.mp hhas
  have happly : ∀ w, (w = .stopService op.service ∨ w = .startService op.service ∨
      ∃ t, w = .setStartup op.service t) → ∃ x m', m.apply w = .ok (x, m') := by
    intro w hw
    rw [ht] at hw
    obtain ⟨a, m', h, -⟩ := m.apply_service_text ⟨text, rfl⟩ hw hx
    exact ⟨a, m', h⟩
  refine happly w ?_
  unfold serviceWrite at hw
  cases ha : op.action <;> rw [ha] at hw
  case stop => cases hw; exact .inl rfl
  case start => cases hw; exact .inr (.inl rfl)
  case disable => cases hw; exact .inr (.inr ⟨_, rfl⟩)
  case enable => cases hw; exact .inr (.inr ⟨_, rfl⟩)
  case setStartupType =>
    cases hs : op.startup <;> rw [hs] at hw <;> cases hw
    exact .inr (.inr ⟨_, rfl⟩)

theorem runService_carries (he : e.mutator = Machine.mutator) (hm : m.Willing)
    (op : ServiceOperation) : Yields m (e.runService slot op) (Carries m (op.writeOn m)) := by
  have hquery : e.mutator.queryService = Machine.queryService := by rw [he]; rfl
  unfold runService ServiceOperation.writeOn
  rw [hquery]
  refine .ask_bind hm (fun f hf => ?_) fun snapshot hsnapshot => ?_
  · rcases error_or_ok_of_bind hf with hn | ⟨n, -, hf⟩
    · rw [hn]
      exact ⟨rfl, rfl⟩
    · cases hf
  obtain ⟨n, hn, hsnapshot⟩ := ok_of_bind hsnapshot
  rw [hn, ok_bind, ← Except.ok.inj hsnapshot, Machine.snapshot]
  cases hx : Assoc.get? n m.services with
  | none =>
    have hhas : Assoc.has n m.services = false := by rw [Assoc.has, hx]; rfl
    rw [hhas]
    exact .throw_bind ⟨rfl, rfl⟩
  | some x =>
    have hhas : Assoc.has n m.services = true := by rw [Assoc.has, hx]; rfl
    rw [hhas, if_pos rfl]
    dsimp only
    rw [Bool.not_true, if_neg Bool.false_ne_true, Act.discard_bind]
    refine .capture_bind (fun _ _ => rfl) fun _ => .result_bind (fun f hf => ?_) fun w hw => ?_
    · rw [hf]
      exact ⟨rfl, rfl⟩
    · obtain ⟨x, m', ha⟩ := apply_serviceWrite hw hn hhas
      rw [Act.discard_bind, hw]
      exact .write_bind he hm ha (.pure ⟨rfl, x, ha⟩)

/-- Capturing a file tells whether its path is taken. -/
theorem captureFile_yields (he : e.mutator = Machine.mutator) (hm : m.Willing)
    (op : FileOperation) : Yields m (e.captureFile slot op) fun r m' =>
      m' = m ∧ Prod.fst <$> r = m.hasPath op.path := by
  have hexists : e.mutator.pathExists = Machine.pathExists := by rw [he]; rfl
  have hread : e.mutator.readText = Machine.readText := by rw [he]; rfl
  unfold captureFile
  rw [hexists, hread]
  refine .ask_bind hm (fun f hf => ⟨rfl, hf.symm⟩) fun there hthere => ?_
  have hkept : ∀ kept, Yields m (pure (there, kept) : Work Machine (Bool × Bool)) fun r m' =>
      m' = m ∧ Prod.fst <$> r = m.hasPath op.path := fun kept => .pure ⟨rfl, hthere.symm⟩
  dsimp only
  split
  · exact .ask_bind hm nofun fun _ _ => .capture_bind (fun _ _ => rfl) hkept
  · exact .bind (.pure ⟨nofun, fun _ _ => .capture_bind (fun _ _ => rfl) hkept⟩)

/-- What comes after capturing a file knows whether its path is taken. -/
theorem captureFile_bind (he : e.mutator = Machine.mutator) (hm : m.Willing) {α : Type}
    {op : FileOperation} {k : Bool × Bool → Work Machine α} {Q : Except Failure α → Machine → Prop}
    (herror : ∀ f, m.hasPath op.path = .error f → Q (.error f) m)
    (hok : ∀ there kept, m.hasPath op.path = .ok there → Yields m (k (there, kept)) Q) :
    Yields m (e.captureFile slot op >>= k) Q := by
  refine .bind ((captureFile_yields he hm op).imp fun r m' ⟨hm', hr⟩ => ?_)
  subst hm'
  exact ⟨fun f hf => herror f (by rw [← hr, hf]; rfl),
    fun x hx => hok x.1 x.2 (by rw [← hr, hx]; rfl)⟩

/-- A path that cannot be looked for cannot be written to. -/
theorem textOf_of_hasPath {path : Datum} {f : Failure} (h : m.hasPath path = .error f) :
    f.isOperational = false ∧ ∃ f', Machine.textOf path = .error f' ∧ f'.isOperational = false := by
  cases path with
  | list | object =>
    cases h
    exact ⟨rfl, _, rfl, rfl⟩
  | _ => cases h

/-- Capturing a file and then writing to its path. -/
theorem captureFile_write (he : e.mutator = Machine.mutator) (hm : m.Willing)
    {op : FileOperation} {w : Write}
    (herror : ∀ f, Machine.textOf op.path = .error f → m.apply w = .error f)
    (hok : ∀ p, Machine.textOf op.path = .ok p → ∃ x m', m.apply w = .ok (x, m')) :
    Yields m (do
        discard (e.captureFile slot op)
        let _ ← e.write w
        return (none : Option String)) (Carries m (do
      discard (Machine.textOf op.path)
      return w)) := by
  rw [Act.discard_bind]
  refine captureFile_bind he hm (fun f hf => ?_) fun _ _ _ => ?_
  · obtain ⟨hf, f', htext, hf'⟩ := textOf_of_hasPath hf
    rw [htext]
    exact ⟨hf.trans hf'.symm, rfl⟩
  · cases htext : Machine.textOf op.path with
    | error f => exact .write_bind_error he hm (herror f htext) ⟨rfl, rfl⟩
    | ok p =>
      obtain ⟨x, m', ha⟩ := hok p htext
      exact .write_bind he hm ha (.pure ⟨rfl, x, ha⟩)

end Engine
end TweakEngine
