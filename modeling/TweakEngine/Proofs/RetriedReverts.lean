/-
# Reverting again

A revert may be cancelled and any of its writes refused.  What it did not restore stays
noted, so that another revert tries again, but what it restored is struck out.  When it
struck out an operation on a value and left a later one on the same value, the next revert
brings an intermediate content back, unless a store gives it all notes again.

`Retreating t m₀ c₀ c` says what holds of a session with core `c` that began with `c₀`,
whatever was refused since: registry and services can be brought back from the notes at the
beginning, and the values and services that only one operation is about are back when its
note is struck out.  So reverting again restores everything with a store, and all these
values and services without one (`revert_restores_retried`).
-/

import TweakEngine.Proofs.RefusedWrites
import TweakEngine.Proofs.Restarts

namespace TweakEngine

open Session

/-- At most one operation of the tweak is about the value. -/
def Tweak.SetsOnce (t : Tweak) (x : Cell) : Prop :=
  ∀ i j, t.cellAt i = some x → t.cellAt j = some x → i = j

/-- At most one operation of the tweak is about the service. -/
def Tweak.ServesOnce (t : Tweak) (n : String) : Prop :=
  ∀ i j, t.serviceAt i = some n → t.serviceAt j = some n → i = j

/-- What hinders a revert: it is cancelled, and writes are refused. -/
structure Hindrance where
  cancelled : Session Machine → Bool
  refuses : Host Machine → Write → Option Failure

/-- The session after a hindered revert. -/
def Hindrance.revert (h : Hindrance) (e : Engine Machine) (t : Tweak) (s : Session Machine) :
    Session Machine := (((e.refusing h.refuses).revert h.cancelled t).on s).2

/-- The session after hindered reverts in a row. -/
def Hindrance.revertAll (e : Engine Machine) (t : Tweak) (s : Session Machine)
    (hs : List Hindrance) : Session Machine := hs.foldl (fun s h => h.revert e t s) s

/-- A core on the way back from `c₀`, in whatever order operations were restored. -/
structure Retreating (t : Tweak) (m₀ : Machine) (c₀ c : Core Machine) : Prop where
  settings : c.machine.settings = m₀.settings
  shelf : c.shelf = c₀.shelf
  registry : RegistryKept t m₀ c.machine (c₀.memory.registryNote t.id)
  services : ServicesKept t m₀ c.machine (c₀.memory.serviceNote t.id)
  within : Memory.Within t c₀.memory c.memory
  values : ∀ x, t.SetsOnce x →
    (∀ i, t.cellAt i = some x → c.memory.registryNote t.id i = none) →
    c.machine.cells x = m₀.cells x
  conditions : ∀ n, t.ServesOnce n →
    (∀ i, t.serviceAt i = some n → c.memory.serviceNote t.id i = none) →
    c.machine.condition n = m₀.condition n

variable {e : Engine Machine} {t : Tweak} {m₀ m' : Machine} {c₀ c c' : Core Machine} {i k : Nat}
  {s : Session Machine} {whole : Prop} {steps : List (Step Machine)}
  {cancelled : Session Machine → Bool} {dir : List String} {st : Snapshot.Store}

theorem Memory.Within.eraseRegistry (m : Memory) (slot : Slot) :
    Memory.Within t m { m with registry := Assoc.erase slot m.registry } := by
  refine ⟨fun i => ?_, fun i => .inr rfl⟩
  rw [Memory.registryNote, Assoc.get?_erase]
  split
  · exact .inl rfl
  · exact .inr rfl

theorem Memory.Within.eraseServices (m : Memory) (slot : Slot) :
    Memory.Within t m { m with services := Assoc.erase slot m.services } := by
  refine ⟨fun i => .inr rfl, fun i => ?_⟩
  rw [Memory.serviceNote, Assoc.get?_erase]
  split
  · exact .inl rfl
  · exact .inr rfl

namespace Retreating

theorem refl (h : Kept t m₀ c) : Retreating t m₀ c c :=
  ⟨h.settings, rfl, h.registry, h.services, .refl _, fun x _ => h.registry.values.untouched x,
    fun n _ => h.services.conditions.untouched n⟩

theorem of_standing (h : Retreating t m₀ c₀ c) (hs : c'.standing = c.standing) :
    Retreating t m₀ c₀ c' := by
  obtain ⟨hsettings, hkeys, hservices, -, -, -, -⟩ := Standing.mk.inj hs
  have hreg := Core.registryNote_of_standing hs t.id
  have hserv := Core.serviceNote_of_standing hs t.id
  refine ⟨hsettings.trans h.settings, (Core.shelf_of_standing hs).trans h.shelf,
    h.registry.of_keys hkeys, h.services.of_services hservices, ⟨?_, ?_⟩, ?_, ?_⟩
  · rw [hreg]
    exact h.within.registry
  · rw [hserv]
    exact h.within.services
  · rw [hreg, Machine.cells_of_keys hkeys]
    exact h.values
  · rw [hserv, Machine.condition_of_services hservices]
    exact h.conditions

/-- **A registry operation is restored**, before or after others. -/
theorem strikeRegistry {op : RegistryOperation} {d : RegistryCapture}
    (h : Retreating t m₀ c₀ c) (hm₀ : m₀.Rooted) (ht : t.PlainRegistry)
    (hi : t.operations.registry[i]? = some op) (hc : c.memory.registryNote t.id i = some d)
    (hm' : Engine.Restored op d c.machine m') :
    Retreating t m₀ c₀ { c with
      machine := m'
      memory := { c.memory with
        registry := Assoc.erase ⟨t.id, .apply, i⟩ c.memory.registry } } := by
  have hd := h.within.registry_of_noted hc
  obtain ⟨hsettings, hservices⟩ := hm'.frame
  refine ⟨hsettings.trans h.settings, h.shelf, h.registry.rewrite ht hm₀ hi hd hm',
    h.services.of_services hservices, h.within.trans (.eraseRegistry _ _), fun x hx hgone => ?_,
    fun n hn hgone => ?_⟩
  · have hnote := fun j => Captures.get?_erase_index t.id i j c.memory.registry
    by_cases hat : t.cellAt i = some x
    · -- the only operation on the value is this one, so its note knows the original
      obtain ⟨hback, -⟩ := hm'.cell (ht.textual op (List.mem_of_getElem? hi))
        ((cellAt_eq hi).symm.trans hat)
      refine hback.trans (h.registry.values.first x i d hat hd fun j hj hjx => ?_)
      exact absurd (hx j i hjx hat) (Nat.ne_of_lt hj)
    · have hsame : c.machine.cells x = m₀.cells x := h.values x hx fun j hj => by
        have hji : j ≠ i := fun e => hat (e ▸ hj)
        have := hgone j hj
        rwa [Memory.registryNote, hnote, if_neg hji] at this
      rcases h.registry.elsewhere ht hm₀ hi hd hm' hat with hstill | hback
      · exact hstill.trans hsame
      · exact hback
  · rw [Machine.condition_of_services hservices]
    exact h.conditions n hn hgone

/-- A change of a service that is noted and stays so. -/
theorem changeService {op : ServiceOperation} {x y : Machine.Service} (h : Retreating t m₀ c₀ c)
    (hi : t.operations.services[i]? = some op) (hc : c.memory.serviceNote t.id i ≠ none)
    (hx : Assoc.get? (Machine.serviceOf op.service) c.machine.services = some x)
    (hm' : Machine.ServiceReplaced c.machine m' (Machine.serviceOf op.service) y)
    (hname : y.name = x.name) (hy : y.state.Settled) :
    Retreating t m₀ c₀ { c with machine := m' } := by
  have hat := serviceAt_eq hi
  obtain ⟨d, hc'⟩ := Option.ne_none_iff_exists'.mp hc
  have hd := h.within.services_of_noted hc'
  refine ⟨hm'.settings.trans h.settings, h.shelf, h.registry.of_keys hm'.keys,
    h.services.change hat (by rw [hd]; exact nofun) hx hm' hname hy, h.within,
    fun x hx hgone => ?_, fun n hn hgone => ?_⟩
  · rw [Machine.cells_of_keys hm'.keys]
    exact h.values x hx hgone
  · have hne : Machine.serviceOf op.service ≠ n := fun e => hc (hgone i (e ▸ hat))
    exact (hm'.condition_ne hne).trans (h.conditions n hn hgone)

/-- **A service operation is restored**, before or after others. -/
theorem strikeService {op : ServiceOperation} {d : ServiceCapture} {x : Machine.Service}
    (h : Retreating t m₀ c₀ c) (hi : t.operations.services[i]? = some op)
    (hc : c.memory.serviceNote t.id i = some d)
    (hx : Assoc.get? (Machine.serviceOf op.service) c.machine.services = some x)
    (hm' : Machine.ServiceReplaced c.machine m' (Machine.serviceOf op.service)
      (Engine.restoredService d x)) :
    Retreating t m₀ c₀ { c with
      machine := m'
      memory := { c.memory with
        services := Assoc.erase ⟨t.id, .apply, i⟩ c.memory.services } } := by
  have hat := serviceAt_eq hi
  have hd := h.within.services_of_noted hc
  have hsettled := h.services.settled _ x hx
  refine ⟨hm'.settings.trans h.settings, h.shelf, h.registry.of_keys hm'.keys,
    h.services.rewrite hat (by rw [hd]; exact nofun) hx hm',
    h.within.trans (.eraseServices _ _), fun x hx hgone => ?_, fun n hn hgone => ?_⟩
  · rw [Machine.cells_of_keys hm'.keys]
    exact h.values x hx hgone
  · have hnote := fun j => Captures.get?_erase_index t.id i j c.memory.services
    by_cases hin : Machine.serviceOf op.service = n
    · subst hin
      refine (h.services.conditions.first _ i d hat hd fun j hj hjn => ?_).condition hsettled hm'
      exact absurd (hn j i hjn hat) (Nat.ne_of_lt hj)
    · refine (hm'.condition_ne hin).trans (h.conditions n hn fun j hj => ?_)
      have hji : j ≠ i := fun e => hin (Option.some.inj (hat.symm.trans (e ▸ hj)))
      have := hgone j hj
      rwa [Memory.serviceNote, hnote, if_neg hji] at this

theorem restoring (h : Retreating t m₀ c₀ c) : Restoring t m₀ c := by
  refine ⟨h.settings, fun i op hi hn => ?_⟩
  obtain ⟨d, hd⟩ := Option.ne_none_iff_exists'.mp hn
  exact h.services.exists_noted (serviceAt_eq hi) (by
    rw [h.within.services_of_noted hd]
    exact nofun)

end Retreating

/-! ## Runs -/

/-- A core on the way back; in a `whole` run the registry operations from `i` on and the service
operations from `k` on are struck out. -/
structure Struck (whole : Prop) (t : Tweak) (m₀ : Machine) (c₀ : Core Machine) (i k : Nat)
    (c : Core Machine) : Prop extends Retreating t m₀ c₀ c where
  registry_gone : whole → ∀ j ≥ i, c.memory.registryNote t.id j = none
  services_gone : whole → ∀ j ≥ k, c.memory.serviceNote t.id j = none

theorem Retreating.struck (h : Retreating t m₀ c₀ c) :
    Struck whole t m₀ c₀ t.operations.registry.length t.operations.services.length c := by
  refine ⟨h, fun _ j hj => ?_, fun _ j hj => ?_⟩
  · exact (h.within.registry j).elim id fun hsame => hsame.trans (h.registry.none_beyond j hj)
  · exact (h.within.services j).elim id fun hsame => hsame.trans (h.services.none_beyond j hj)

/-- Restoring a service operation, while writes may be refused. -/
theorem retreatService_takes {op : ServiceOperation} (he : e.WorksOn) (hm₀ : m₀.Regular)
    (ht : t.Plain) (hk : t.operations.services[k]? = some op) (label : Datum) :
    (⟨label, e.restoreService ⟨t.id, .apply, k⟩ op⟩ : Step Machine).Takes
      (Struck e.Faithful t m₀ c₀ i (k + 1)) (Struck e.Faithful t m₀ c₀ i k)
      (fun c => Retreating t m₀ c₀ c ∧ ¬e.Faithful) := by
  intro s hs
  dsimp only
  cases hc : s.core.memory.serviceNote t.id k with
  | none =>
    rw [Engine.restoreService_on_none ⟨t.id, .apply, k⟩ hc]
    exact ⟨hs.toRetreating, hs.registry_gone, fun hw => none_from hc (hs.services_gone hw)⟩
  | some d =>
    obtain ⟨x, hx⟩ := hs.restoring.found k op hk (by rw [hc]; exact nofun)
    obtain ⟨r, s', hs', hok, hcases⟩ := Engine.restoreService_tried he ⟨t.id, .apply, k⟩
      (hm₀.toOpen.willing.of_settings hs.settings) (ht.services op (List.mem_of_getElem? hk)) hc hx
    rw [hs']
    rcases hcases with ⟨f, m', startup, rfl, hm', hcore⟩ | ⟨m', rfl, hm', hcore⟩
    · have hret : Retreating t m₀ c₀ s'.core := by
        rw [hcore]
        exact hs.toRetreating.changeService hk (by rw [hc]; exact nofun) hx hm' rfl
          (hs.services.settled _ x hx)
      have hnot : ¬e.Faithful := fun hf => nomatch hok hf
      split
      · exact ⟨hret, fun hf => absurd hf hnot, fun hf => absurd hf hnot⟩
      · exact ⟨hret, hnot⟩
    · show Struck e.Faithful t m₀ c₀ i k s'.core
      rw [hcore]
      refine ⟨hs.toRetreating.strikeService hk hc hx hm', hs.registry_gone, fun hw j hj => ?_⟩
      rw [Memory.serviceNote, Captures.get?_erase_index]
      split
      · rfl
      · exact hs.services_gone hw j (by omega)

/-- Restoring a registry operation, while writes may be refused. -/
theorem retreatRegistry_takes {op : RegistryOperation} (he : e.WorksOn) (hm₀ : m₀.Regular)
    (ht : t.Plain) (hi : t.operations.registry[i]? = some op) (label : Datum) :
    (⟨label, e.restoreRegistry ⟨t.id, .apply, i⟩ op⟩ : Step Machine).Takes
      (Struck e.Faithful t m₀ c₀ (i + 1) k) (Struck e.Faithful t m₀ c₀ i k)
      (fun c => Retreating t m₀ c₀ c ∧ ¬e.Faithful) := by
  intro s hs
  dsimp only
  cases hc : s.core.memory.registryNote t.id i with
  | none =>
    rw [Engine.restoreRegistry_on_none ⟨t.id, .apply, i⟩ hc]
    exact ⟨hs.toRetreating, fun hw => none_from hc (hs.registry_gone hw), hs.services_gone⟩
  | some d =>
    obtain ⟨r, s', hs', hok, hcases⟩ := Engine.restoreRegistry_tried he ⟨t.id, .apply, i⟩
      (hm₀.toOpen.willing.of_settings hs.settings) (ht.textual op (List.mem_of_getElem? hi)) hc
    rw [hs']
    rcases hcases with ⟨f, rfl, hcore⟩ | ⟨m', rfl, hm', hcore⟩
    · have hnot : ¬e.Faithful := fun hf => nomatch hok hf
      rw [hcore]
      split
      · exact ⟨hs.toRetreating, fun hf => absurd hf hnot, fun hf => absurd hf hnot⟩
      · exact ⟨hs.toRetreating, hnot⟩
    · show Struck e.Faithful t m₀ c₀ i k s'.core
      rw [hcore]
      refine ⟨hs.toRetreating.strikeRegistry hm₀.rooted ht.toPlainRegistry hi hc hm',
        fun hw j hj => ?_, hs.services_gone⟩
      rw [Memory.registryNote, Captures.get?_erase_index]
      split
      · rfl
      · exact hs.registry_gone hw j (by omega)

/-- **Restoring while writes are refused** keeps what `Retreating` says.  A run of an engine that
refuses none leaves no note when it succeeds, and is cut short only by a cancellation or by a
script that does not answer with texts. -/
theorem restoreSteps_retreat (cancelled : Session Machine → Bool) (c₀ : Core Machine)
    (he : e.WorksOn) (hm₀ : m₀.Regular) (ht : t.Plain)
    (hsteps : e.restoreSteps t.id t.operations = .ok steps) :
    Engine.Leads cancelled steps (Retreating t m₀ c₀)
      (fun c => Retreating t m₀ c₀ c ∧ (e.Faithful → Unnoted t c))
      (fun c => Retreating t m₀ c₀ c ∧ ¬(e.Faithful ∧ Unhindered m₀ cancelled)) := by
  have hruns : Engine.Leads cancelled steps (Retreating t m₀ c₀) (Struck e.Faithful t m₀ c₀ 0 0)
      (fun c => Retreating t m₀ c₀ c ∧ ¬(e.Faithful ∧ Unhindered m₀ cancelled)) := by
    refine restoreSteps_along (S := Struck e.Faithful t m₀ c₀ t.operations.registry.length)
      (R := fun i => Struck e.Faithful t m₀ c₀ i 0) he hm₀.toOpen.willing ht hsteps ?_ ?_
      (fun i op label hi => ?_) (fun i op label hi => ?_) (fun i c h => h.toRetreating)
      (fun i c h => h.toRetreating) (fun c h => h.struck) (fun c => id)
    · exact fun s hs h => ⟨h, fun hboth => by rw [hboth.2.2 s] at hs; cases hs⟩
    · exact fun st hst => hst.takes (fun c h => h.settings) (fun c c' hs h => h.of_standing hs)
        fun c h hnot => ⟨h, fun hboth => hnot ⟨hboth.1, hboth.2.1⟩⟩
    · exact (retreatService_takes he hm₀ ht hi label).weaken fun c h =>
        ⟨h.1, fun hboth => h.2 hboth.1⟩
    · exact (retreatRegistry_takes he hm₀ ht hi label).weaken fun c h =>
        ⟨h.1, fun hboth => h.2 hboth.1⟩
  exact hruns.imp (fun _ => id) fun c h => ⟨h.toRetreating, fun hf =>
    ⟨fun j => h.registry_gone hf j (Nat.zero_le j), fun j => h.services_gone hf j (Nat.zero_le j)⟩⟩

/-! ## Calls -/

/-- A revert without a store, while writes may be refused. -/
theorem revert_retreats (cancelled : Session Machine → Bool) (he : e.WorksOn)
    (hel : e.elevated = true) (ht : t.Restorable) (hm₀ : m₀.Regular)
    (hs : Retreating t m₀ c₀ s.core) (hstore : c₀.store = none) :
    ∃ r s', (e.revert cancelled t).on s = (.ok r, s') ∧ Retreating t m₀ c₀ s'.core ∧
      (e.Faithful → (r.success = true → Unnoted t s'.core) ∧
        (Unhindered m₀ cancelled → r.success = true) ∧
        (t.operations.scripts = [] → t.operations.files = [] → r.failed = [])) := by
  obtain ⟨scripts, hsteps, -⟩ := restoreSteps_eq ht.toPlain e
  obtain ⟨s₁, hcore, hdoes⟩ := Engine.revert_does cancelled hel ht.reversible ht.withoutUndo hsteps s
  have hs₁ : Retreating t m₀ c₀ s₁.core := hcore ▸ hs
  obtain ⟨r, s₂, hrun, hend⟩ := restoreSteps_retreat cancelled c₀ he hm₀ ht.toPlain hsteps
    { success := true, tweakId := t.id } s₁ rfl hs₁
  have hs₂ : Retreating t m₀ c₀ s₂.core := hend.elim (·.2.1) (·.2.1)
  have hnone : ∀ {c}, Retreating t m₀ c₀ c → c.store = none := fun h =>
    (congrArg Prod.snd h.shelf).trans hstore
  rw [revertRun_storeless (hnone hs₁) (hnone hs₂) hrun] at hdoes
  obtain ⟨r', s', hcall, hcore', hsuccess, hfailed⟩ := hdoes
  refine ⟨r', s', hcall, hcore' ▸ hs₂, fun hf => ?_⟩
  rw [hcore', hsuccess, hfailed]
  refine ⟨fun hr => ?_, fun hun => ?_, fun hscripts hfiles => ?_⟩
  · rcases hend with ⟨-, -, hunnoted⟩ | ⟨hr', -⟩
    · exact hunnoted hf
    · exact absurd (hr'.symm.trans hr) Bool.false_ne_true
  · exact hend.elim (·.1) fun h => absurd ⟨hf, hun⟩ h.2.2
  · exact restoreSteps_unfailing hf hm₀.toOpen.willing ht.toPlain hscripts hfiles hsteps
      hs₁.restoring hrun

/-- Hindered reverts without a store. -/
theorem revertAll_retreats (he : e.Bare) (ht : t.Restorable) (hm₀ : m₀.Regular)
    (hindrances : List Hindrance) (hs : Retreating t m₀ c₀ s.core) (hstore : c₀.store = none) :
    Retreating t m₀ c₀ (Hindrance.revertAll e t s hindrances).core := by
  induction hindrances generalizing s with
  | nil => exact hs
  | cons h hindrances ih =>
    obtain ⟨r, s', hcall, hs', -⟩ := revert_retreats h.cancelled (he.refusing_worksOn h.refuses)
      he.elevated ht hm₀ hs hstore
    have hnext : Retreating t m₀ c₀ (h.revert e t s).core := by
      rw [Hindrance.revert, hcall]
      exact hs'
    exact ih hnext

/-- The run of a hindered revert keeps the machine recoverable from the file.  One that records
no failure removes the file, and then nothing was refused. -/
theorem revertRun_hindered {refuses : Host Machine → Write → Option Failure}
    {steps' : List (Step Machine)} (he : e.Bare) (ht : t.Restartable) (hm₀ : m₀.Regular)
    (hsteps : e.restoreSteps t.id t.operations = .ok steps)
    (hsteps' : (e.refusing refuses).restoreSteps t.id t.operations = .ok steps')
    (h : Recoverable t m₀ dir s.core) :
    ∃ r s', (Engine.revertRun cancelled steps' t).on s = (.ok r, s') ∧
      Recoverable t m₀ dir s'.core := by
  have hworks := he.refusing_worksOn refuses
  obtain ⟨st, full, hfrom⟩ := h
  obtain ⟨s₁, hload, hfrom₁, hsame⟩ := loadSnapshot_on ht hfrom
  have hkept : Kept t m₀ s₁.core := hfrom₁.kept.of_same rfl hsame
  have hleads := (restoreSteps_retreat cancelled s₁.core hworks hm₀ ht.toPlain hsteps').and
    (Engine.restoreSteps_legible cancelled hm₀.toOpen.willing hworks ht.toPlain hsteps')
  obtain ⟨r, s₂, hrun, hend⟩ := hleads { success := true, tweakId := t.id } s₁ rfl
    ⟨.refl hkept, hfrom₁.legible⟩
  cases hclean : r.clean with
  | true =>
    rw [Engine.revertRun_follows hsteps' hsteps hload hrun hclean]
    obtain ⟨r', s', hrun', hrecoverable, -⟩ :=
      revertRun_recoverable he.faithful ht hm₀ hsteps ⟨st, full, hfrom⟩
    exact ⟨r', s', hrun', hrecoverable⟩
  | false =>
    obtain ⟨hret, hlegible⟩ : Retreating t m₀ s₁.core s₂.core ∧ Legible t m₀ s₂.core :=
      hend.elim (fun h => ⟨h.2.1.1, h.2.2⟩) fun h => ⟨h.2.1.1, h.2.2⟩
    refine ⟨r, s₂, ?_, st, full, hfrom₁.along hsame hret.shelf hret.within hret.registry
      hret.services hlegible⟩
    rw [Engine.revertRun, Act.on_bind_of_ok hload, Act.on_bind_of_ok hrun, hclean]
    rfl

/-- A hindered revert keeps the machine recoverable from the file. -/
theorem revert_hindered (he : e.Bare) (ht : t.Restartable) (hm₀ : m₀.Regular) (b : Hindrance)
    (h : Recoverable t m₀ dir s.core) : Recoverable t m₀ dir (b.revert e t s).core := by
  obtain ⟨scripts, hsteps, -⟩ := restoreSteps_eq ht.toPlain e
  obtain ⟨scripts', hsteps', -⟩ := restoreSteps_eq ht.toPlain (e.refusing b.refuses)
  obtain ⟨s₁, hcore, hdoes⟩ := Engine.revert_does b.cancelled (e := e.refusing b.refuses)
    he.elevated ht.reversible ht.withoutUndo hsteps' s
  obtain ⟨r, s₂, hrun, hrecoverable⟩ :=
    revertRun_hindered he ht hm₀ hsteps hsteps' (hcore ▸ h)
  rw [hrun] at hdoes
  obtain ⟨r', s', hcall, hcore', -, -⟩ := hdoes
  rw [Hindrance.revert, hcall, hcore']
  exact hrecoverable

/-- Hindered reverts keep the machine recoverable from the file. -/
theorem revertAll_recoverable (he : e.Bare) (ht : t.Restartable) (hm₀ : m₀.Regular)
    (hindrances : List Hindrance) (h : Recoverable t m₀ dir s.core) :
    Recoverable t m₀ dir (Hindrance.revertAll e t s hindrances).core := by
  induction hindrances generalizing s with
  | nil => exact h
  | cons b hindrances ih => exact ih (revert_hindered he ht hm₀ b h)

/-- The session keeps what it captures in memory, or also in a store that has no snapshot of the
tweak yet. -/
inductive Provided (t : Tweak) (s : Session Machine) : Prop
  | memory (ht : t.Restorable) (hstore : s.store = none)
  | store (ht : t.Restartable) {st : Snapshot.Store} {dir : List String}
      (hstore : s.store = some st) (hserves : st.Serves s.host.disk dir t)
      (hnew : st.has t.id = false) (hfiles : s.host.machine.Legible)
      (htidy : s.memory.Tidy t.id)

/-- **Reverting again.**  After any calls on the tweak and any reverts that are cancelled
or of which writes are refused, a revert that runs to its end without failures brings back every
registry value and every service when there is a store, and without one every value and every
service that at most one operation of the tweak is about.  The revert does run to its end when
nobody cancels it and scripts answer with texts, and without scripts and file operations nothing
fails. -/
theorem revert_restores_retried (he : e.Bare) (hm : s.host.machine.Regular)
    (hn : Unnoted t s.core) (hs : Provided t s) (turns : List Turn) (hindrances : List Hindrance)
    (cancelled : Session Machine → Bool) :
    ∃ r s', (e.revert cancelled t).on
        (Hindrance.revertAll e t (Turn.takeAll e t s turns) hindrances) = (.ok r, s') ∧
      (r.success = true → r.failed = [] →
        (∀ key name, s.store ≠ none ∨ t.SetsOnce (key, name) →
          s'.host.machine.content key name = s.host.machine.content key name ∧
          (s'.host.machine.stored key name = s.host.machine.stored key name ∨
            s.host.machine.stored key name = some none ∧
              s'.host.machine.stored key name = none ∧
              ∃ i, t.Reaches i ∧ t.cellAt i = some (key, name))) ∧
        ∀ name, s.store ≠ none ∨ t.ServesOnce name →
          Assoc.get? name s'.host.machine.services = Assoc.get? name s.host.machine.services) ∧
      (Unhindered s.host.machine cancelled → r.success = true) ∧
      (t.operations.scripts = [] → t.operations.files = [] → r.failed = []) := by
  have hkept : Kept t s.host.machine s.core := ⟨rfl, .refl hn.1, .refl hm.settled hn.2⟩
  cases hs with
  | memory ht hstore =>
    have hturns := takeAll_storeless he ht hm turns ⟨hkept, hstore⟩
    obtain ⟨r, s', hcall, hret, hfaithful⟩ := revert_retreats cancelled he.faithful.toWorksOn
      he.elevated ht hm (revertAll_retreats he ht hm hindrances (.refl hturns.kept) hturns.store)
      hturns.store
    obtain ⟨hunnoted, hsuccess, hfailed⟩ := hfaithful he.faithful
    refine ⟨r, s', hcall, fun hr _ => ⟨fun key name honce => ?_, fun name honce => ?_⟩, hsuccess,
      hfailed⟩
    · have hback := hret.values (key, name) (honce.resolve_left fun h => h hstore) fun i _ =>
        (hunnoted hr).1 i
      exact ⟨hback, hret.registry.entry_of_content hback⟩
    · exact hret.services.same_of_condition (hret.conditions name
        (honce.resolve_left fun h => h hstore) fun i _ => (hunnoted hr).2 i)
  | @store ht st dir hstore hserves hnew hfiles htidy =>
    have hnone : Assoc.get? t.key st.index = none :=
      Option.not_isSome_iff_eq_none.mp (Bool.not_eq_true _ ▸ hnew)
    have hstart : Recoverable t s.host.machine dir s.core :=
      ⟨st, s.memory, ⟨rfl, hfiles, htidy⟩, hstore, hserves, .inl ⟨hnone, hn.1, hn.2⟩, .refl _,
        hkept⟩
    obtain ⟨r, s', hcall, -, hdone, hsuccess, hfailed⟩ := revert_recoverable cancelled he ht hm
      (revertAll_recoverable he ht hm hindrances
        (takeAll_recoverable he ht hm (turns.map .call) hstart))
    have hturns : Stage.takeAll e t s (turns.map .call) = Turn.takeAll e t s turns := by
      rw [Stage.takeAll, List.foldl_map]
      rfl
    rw [hturns] at hcall
    refine ⟨r, s', hcall, fun hr hf => ?_, hsuccess, hfailed⟩
    obtain ⟨hback, hunnoted, -⟩ := hdone hr hf
    exact ⟨fun key name _ => ⟨hback.registry.content hunnoted.1 key name,
      hback.entry hunnoted (key, name)⟩, fun name _ => hback.services.restored hunnoted.2 name⟩

/-- A tweak that sets one value twice under names of different case. -/
def settingTwice : Tweak :=
  { id := "twice"
    name := .text "Twice"
    operations :=
      { registry :=
          [{ hive := .localMachine, keyPath := .text "Demo", valueName := .text "Level"
             value := .int 1 },
           { hive := .localMachine, keyPath := .text "DEMO", valueName := .text "LEVEL"
             value := .int 2 }] } }

/-- Nothing is cancelled, but the value cannot be set under the name of the second operation. -/
def settingRefused : Hindrance where
  cancelled := fun _ => false
  refuses := fun _ w => match w with
    | .setValue _ _ name _ => if name.text? = some "LEVEL" then some (.refused "busy") else none
    | _ => none

theorem settingTwice_restorable : settingTwice.Restorable where
  textual := by
    simp only [settingTwice, List.forall_mem_cons, List.not_mem_nil, false_implies, implies_true,
      and_true]
    exact ⟨⟨⟨_, rfl⟩, .inr ⟨_, rfl⟩⟩, ⟨⟨_, rfl⟩, .inr ⟨_, rfl⟩⟩⟩
  action := by decide
  services := nofun
  scripts := nofun
  files := nofun
  reversible := rfl
  withoutUndo := rfl

/-- One apply, of which nothing is refused. -/
def settingApplied : List Turn := [.apply (fun _ => false) fun _ _ => none]

/-- With a store the value comes back. -/
theorem sample_retried :
    Engine.Bare { mutator := Machine.mutator } ∧ sampleStoreSession.host.machine.Regular ∧
      Unnoted settingTwice sampleStoreSession.core ∧ Provided settingTwice sampleStoreSession ∧
      ∃ r s', (Engine.revert { mutator := Machine.mutator } (fun _ => false) settingTwice).on
          (Hindrance.revertAll { mutator := Machine.mutator } settingTwice
            (Turn.takeAll { mutator := Machine.mutator } settingTwice sampleStoreSession
              settingApplied) [settingRefused]) = (.ok r, s') ∧
        r.success = true ∧ r.failed = [] ∧
        s'.host.machine.content (.localMachine, "demo") "level" = some (.dword 3) := by
  have he : Engine.Bare { mutator := Machine.mutator } := ⟨rfl, rfl, rfl, rfl⟩
  have hn : Unnoted settingTwice sampleStoreSession.core := ⟨fun _ => rfl, fun _ => rfl⟩
  have ht : settingTwice.Restartable :=
    { settingTwice_restorable with
      name := ⟨_, rfl⟩
      count := Nat.lt_of_lt_of_le (by decide : _ < 10 ^ 1)
        (Nat.pow_le_pow_right (by decide) (by decide))
      texts := nofun
      ownFile := by decide }
  have hplaced : ({ directory := ⟨.slash, []⟩ } : Snapshot.Store).Placed
      sampleStoreSession.host.disk [] := ⟨nofun, by decide, rfl, by decide, by decide⟩
  have hserves : ({ directory := ⟨.slash, []⟩ } : Snapshot.Store).Serves
      sampleStoreSession.host.disk [] settingTwice :=
    ⟨hplaced, ⟨by decide, by decide⟩, ⟨List.nodup_nil, nofun⟩,
      Snapshot.Store.openAt_missing hplaced rfl rfl⟩
  have hs : Provided settingTwice sampleStoreSession :=
    .store ht rfl hserves rfl nofun ⟨nofun, nofun, nofun⟩
  obtain ⟨r, s', hcall, hback, hsuccess, hfailed⟩ := revert_restores_retried
    (s := sampleStoreSession) he sample_regular hn hs settingApplied [settingRefused] fun _ => false
  have hr : r.success = true := hsuccess ⟨nofun, fun _ => rfl⟩
  have hf : r.failed = [] := hfailed rfl rfl
  refine ⟨he, sample_regular, hn, hs, r, s', hcall, hr, hf, ?_⟩
  exact ((hback hr hf).1 (.localMachine, "demo") "level" (.inl nofun)).1

/-- Without a store the second operation is restored after the first and leaves the value
that the first had set. -/
theorem sample_restored_late :
    Engine.Bare { mutator := Machine.mutator } ∧ settingTwice.Restorable ∧
      sampleSession.host.machine.Regular ∧ sampleSession.store = none ∧
      Unnoted settingTwice sampleSession.core ∧
      sampleSession.host.machine.content (.localMachine, "demo") "level" = some (.dword 3) ∧
      ∃ r s', (Engine.revert { mutator := Machine.mutator } (fun _ => false) settingTwice).on
          (Hindrance.revertAll { mutator := Machine.mutator } settingTwice
            (Turn.takeAll { mutator := Machine.mutator } settingTwice sampleSession
              settingApplied) [settingRefused]) = (.ok r, s') ∧
        r.success = true ∧ r.failed = [] ∧
        s'.host.machine.content (.localMachine, "demo") "level" = some (.dword 1) := by
  have hafter : (Engine.revert { mutator := Machine.mutator } (fun _ => false)
      settingTwice).succeeds (Hindrance.revertAll { mutator := Machine.mutator } settingTwice
        (Turn.takeAll { mutator := Machine.mutator } settingTwice sampleSession settingApplied)
        [settingRefused]) (fun r s' => r.clean &&
          s'.host.machine.content (.localMachine, "demo") "level" == some (.dword 1)) = true := by
    decide +kernel
  obtain ⟨r, s', hcall, hlate⟩ := Act.of_succeeds hafter
  obtain ⟨hclean, hcontent⟩ := Bool.and_eq_true_iff.mp hlate
  obtain ⟨hsuccess, hfailed⟩ := Bool.and_eq_true_iff.mp hclean
  exact ⟨⟨rfl, rfl, rfl, rfl⟩, settingTwice_restorable, sample_regular, rfl,
    ⟨fun _ => rfl, fun _ => rfl⟩, by decide, r, s', hcall, hsuccess, List.isEmpty_iff.mp hfailed,
    eq_of_beq hcontent⟩

end TweakEngine
