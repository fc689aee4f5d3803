/-
# Restoring a tweak on a machine

Restoring goes through files, scripts, services and registry, each backwards, and
strikes out one note after the other.  `Reverting t m₀ c₀ c` says what holds meanwhile of
a session with core `c` that began with `c₀`: registry and services can be brought back
both from the notes that are left and from those at the beginning.  A run that succeeds
leaves no note (`restoreSteps_leads`).
-/

import TweakEngine.Proofs.TweakRuns

namespace TweakEngine

open Session

/-- A core on the way back from `c₀`. -/
structure Reverting (t : Tweak) (m₀ : Machine) (c₀ c : Core Machine) : Prop where
  kept : Kept t m₀ c
  shelf : c.shelf = c₀.shelf
  registry : RegistryKept t m₀ c.machine (c₀.memory.registryNote t.id)
  services : ServicesKept t m₀ c.machine (c₀.memory.serviceNote t.id)
  /-- Notes are struck out and never changed. -/
  registryNotes : ∀ i, c.memory.registryNote t.id i = none ∨
    c.memory.registryNote t.id i = c₀.memory.registryNote t.id i
  serviceNotes : ∀ i, c.memory.serviceNote t.id i = none ∨
    c.memory.serviceNote t.id i = c₀.memory.serviceNote t.id i
  /-- A value whose note is struck out has content or is gone. -/
  erased : ∀ i x, t.cellAt i = some x → c₀.memory.registryNote t.id i ≠ none →
    c.memory.registryNote t.id i ≠ none ∨ c.machine.stored x.1 x.2 ≠ some none

variable {t : Tweak} {m₀ : Machine} {c₀ c c' : Core Machine} {e : Engine Machine} {i : Nat}
  {cancelled : Session Machine → Bool}

namespace Reverting

theorem refl (h : Kept t m₀ c) : Reverting t m₀ c c :=
  ⟨h, rfl, h.registry, h.services, fun _ => .inr rfl, fun _ => .inr rfl, fun _ _ _ => .inl⟩

theorem of_standing (h : Reverting t m₀ c₀ c) (hs : c'.standing = c.standing) :
    Reverting t m₀ c₀ c' := by
  obtain ⟨-, hkeys, hservices, -, -, -, -⟩ := Standing.mk.inj hs
  have hreg := Core.registryNote_of_standing hs t.id
  have hserv := Core.serviceNote_of_standing hs t.id
  refine ⟨h.kept.of_standing hs, (Core.shelf_of_standing hs).trans h.shelf,
    h.registry.of_keys hkeys, h.services.of_services hservices, fun i => ?_, fun i => ?_,
    fun i x hx hn => ?_⟩
  · rw [hreg]; exact h.registryNotes i
  · rw [hserv]; exact h.serviceNotes i
  · rw [hreg, Machine.stored, hkeys]; exact h.erased i x hx hn

end Reverting

/-- Nothing cuts a run short that refuses no write. -/
def Unhindered (m₀ : Machine) (cancelled : Session Machine → Bool) : Prop :=
  m₀.Outspoken ∧ ∀ s, cancelled s = false

/-- All service operations from a position on are without a note. -/
structure ServicesBack (t : Tweak) (m₀ : Machine) (c₀ : Core Machine) (i : Nat)
    (c : Core Machine) : Prop extends Reverting t m₀ c₀ c where
  services_gone : ∀ j ≥ i, c.memory.serviceNote t.id j = none

/-- All service operations, and all registry operations from a position on, are without a
note. -/
structure RegistryBack (t : Tweak) (m₀ : Machine) (c₀ : Core Machine) (i : Nat)
    (c : Core Machine) : Prop extends Reverting t m₀ c₀ c where
  services_gone : ∀ j, c.memory.serviceNote t.id j = none
  registry_gone : ∀ j ≥ i, c.memory.registryNote t.id j = none

/-- Restoring a service operation when those after it are restored. -/
theorem restoreService_takes {op : ServiceOperation} {W : Core Machine → Prop} (he : e.Faithful)
    (hm₀ : m₀.Regular) (ht : t.Plain) (hi : t.operations.services[i]? = some op) (label : Datum) :
    (⟨label, e.restoreService ⟨t.id, .apply, i⟩ op⟩ : Step Machine).Takes
      (ServicesBack t m₀ c₀ (i + 1)) (ServicesBack t m₀ c₀ i) W := by
  intro s hs
  have hat := serviceAt_eq hi
  cases hc : s.core.memory.serviceNote t.id i with
  | none =>
    dsimp only
    rw [Engine.restoreService_on_none ⟨t.id, .apply, i⟩ hc]
    exact ⟨hs.toReverting, none_from hc hs.services_gone⟩
  | some d =>
    obtain ⟨x, hx⟩ := hs.kept.services.exists_noted hat (by rw [hc]; exact nofun)
    obtain ⟨s', m', hs', hm', hcore⟩ := Engine.restoreService_on he ⟨t.id, .apply, i⟩
      (hm₀.toOpen.willing.of_settings hs.kept.settings) (ht.services op (List.mem_of_getElem? hi)) hc hx
    dsimp only
    rw [hs']
    have hnote : ∀ j, s'.core.memory.serviceNote t.id j =
        if j = i then none else s.core.memory.serviceNote t.id j := fun j => by
      rw [Memory.serviceNote, hcore]
      exact Captures.get?_erase_index t.id i j s.core.memory.services
    have gone : s'.core.memory.serviceNote t.id i = none := by rw [hnote, if_pos rfl]
    have same : ∀ j, j ≠ i →
        s'.core.memory.serviceNote t.id j = s.core.memory.serviceNote t.id j := fun j hj => by
      rw [hnote, if_neg hj]
    have hmach : s'.core.machine = m' := by rw [hcore]
    have hreg : s'.core.memory.registryNote t.id = s.core.memory.registryNote t.id := by
      rw [hcore]; rfl
    have hd : c₀.memory.serviceNote t.id i = some d := by
      rcases hs.serviceNotes i with h | h
      · rw [hc] at h; cases h
      · rw [← h, hc]
    refine ⟨⟨⟨?_, ?_, ?_⟩, ?_, ?_, ?_, ?_, fun j => ?_, ?_⟩, fun j hj => ?_⟩
    · rw [hmach]; exact hm'.settings.trans hs.kept.settings
    · rw [hmach, hreg]; exact hs.kept.registry.of_keys hm'.keys
    · rw [hmach]
      exact hs.kept.services.restore hat hc hx hm' (fun j hj _ => hs.services_gone j hj) gone same
    · rw [hcore]; exact hs.shelf
    · rw [hmach]; exact hs.registry.of_keys hm'.keys
    · rw [hmach]; exact hs.services.rewrite hat (by rw [hd]; exact nofun) hx hm'
    · rw [hreg]; exact hs.registryNotes
    · rw [hnote]
      split
      · exact .inl rfl
      · exact hs.serviceNotes j
    · rw [hreg, hmach]
      intro j y hy hn
      rw [Machine.stored, hm'.keys]
      exact hs.erased j y hy hn
    · rw [hnote]
      split
      · rfl
      · exact hs.services_gone j (by omega)

/-- Restoring a registry operation when those after it are restored. -/
theorem restoreRegistry_takes {op : RegistryOperation} {W : Core Machine → Prop} (he : e.Faithful)
    (hm₀ : m₀.Regular) (ht : t.Plain) (hi : t.operations.registry[i]? = some op) (label : Datum) :
    (⟨label, e.restoreRegistry ⟨t.id, .apply, i⟩ op⟩ : Step Machine).Takes
      (RegistryBack t m₀ c₀ (i + 1)) (RegistryBack t m₀ c₀ i) W := by
  intro s hs
  have hop := ht.textual op (List.mem_of_getElem? hi)
  cases hc : s.core.memory.registryNote t.id i with
  | none =>
    dsimp only
    rw [Engine.restoreRegistry_on_none ⟨t.id, .apply, i⟩ hc]
    exact ⟨hs.toReverting, hs.services_gone, none_from hc hs.registry_gone⟩
  | some d =>
    obtain ⟨s', m', hs', hm', hcore⟩ := Engine.restoreRegistry_on he ⟨t.id, .apply, i⟩
      (hm₀.toOpen.willing.of_settings hs.kept.settings) hop hc
    dsimp only
    rw [hs']
    have hnote : ∀ j, s'.core.memory.registryNote t.id j =
        if j = i then none else s.core.memory.registryNote t.id j := fun j => by
      rw [Memory.registryNote, hcore]
      exact Captures.get?_erase_index t.id i j s.core.memory.registry
    have gone : s'.core.memory.registryNote t.id i = none := by rw [hnote, if_pos rfl]
    have same : ∀ j, j ≠ i →
        s'.core.memory.registryNote t.id j = s.core.memory.registryNote t.id j := fun j hj => by
      rw [hnote, if_neg hj]
    have hmach : s'.core.machine = m' := by rw [hcore]
    have hserv : s'.core.memory.serviceNote t.id = s.core.memory.serviceNote t.id := by
      rw [hcore]; rfl
    have hd : c₀.memory.registryNote t.id i = some d := by
      rcases hs.registryNotes i with h | h
      · rw [hc] at h; cases h
      · rw [← h, hc]
    obtain ⟨hsettings, hservices⟩ := hm'.frame
    refine ⟨⟨⟨?_, ?_, ?_⟩, ?_, ?_, ?_, fun j => ?_, ?_, fun j y hy hn => ?_⟩, ?_, fun j hj => ?_⟩
    · rw [hmach]; exact hsettings.trans hs.kept.settings
    · rw [hmach]
      exact hs.kept.registry.restore ht.toPlainRegistry hm₀.rooted hi hc hm'
        (fun j _ hj _ _ => hs.registry_gone j hj) gone same
    · rw [hmach, hserv]; exact hs.kept.services.of_services hservices
    · rw [hcore]; exact hs.shelf
    · rw [hmach]; exact hs.registry.rewrite ht.toPlainRegistry hm₀.rooted hi hd hm'
    · rw [hmach]; exact hs.services.of_services hservices
    · rw [hnote]
      split
      · exact .inl rfl
      · exact hs.registryNotes j
    · rw [hserv]; exact hs.serviceNotes
    · rw [hmach]
      by_cases hji : j = i
      · subst hji
        refine .inr (hm'.cell hop ?_).2.1
        rw [← cellAt_eq hi]
        exact hy
      · rw [same j hji]
        exact (hs.erased j y hy hn).imp_right fun h => fun h' => h (hm'.hollow hop h')
    · rw [hserv]; exact hs.services_gone
    · rw [hnote]
      split
      · rfl
      · exact hs.registry_gone j (by omega)

/-- The steps that restore a plain tweak: files, scripts, services and registry, each
backwards. -/
theorem restoreSteps_eq (ht : t.Plain) (e : Engine Machine) : ∃ scripts,
    e.restoreSteps t.id t.operations = .ok
      ((Engine.stepsFor t.id .apply t.operations.files fun slot op =>
          ⟨Engine.undoing "Restore" op.describe, e.restoreFile slot op⟩).reverse ++
        scripts ++
        (Engine.stepsFor t.id .apply t.operations.services fun slot op =>
          ⟨Engine.undoing "Restore" op.describe, e.restoreService slot op⟩).reverse ++
        (Engine.stepsFor t.id .apply t.operations.registry fun slot op =>
          ⟨Engine.undoing "Restore" op.describe, e.restoreRegistry slot op⟩).reverse) ∧
      ∀ st ∈ scripts, ∃ op ∈ t.operations.scripts, st.run = e.revertScript op := by
  obtain ⟨scripts, hscripts⟩ := mapM_ok t.operations.scripts.reverse
    (f := fun op => do
      return (⟨Engine.undoing "Revert" (← op.describe), e.revertScript op⟩ : Step Machine))
    fun op hop => by
      obtain ⟨d, hd⟩ := (ht.scripts op (List.mem_reverse.mp hop)).describe
      exact ⟨_, by rw [hd]; rfl⟩
  refine ⟨scripts, by unfold Engine.restoreSteps; rw [hscripts]; rfl, fun st hst => ?_⟩
  obtain ⟨op, hop, h⟩ := mem_of_mapM hscripts st hst
  obtain ⟨d, -, h⟩ := ok_of_bind h
  cases h
  exact ⟨op, List.mem_reverse.mp hop, rfl⟩

/-- The restoring steps of a plain tweak with only registry and service operations. -/
theorem restoreSteps_bare (ht : t.Plain) (hscripts : t.operations.scripts = [])
    (hfiles : t.operations.files = []) (e : Engine Machine) :
    e.restoreSteps t.id t.operations = .ok
      ((Engine.stepsFor t.id .apply t.operations.services fun slot op =>
          ⟨Engine.undoing "Restore" op.describe, e.restoreService slot op⟩).reverse ++
        (Engine.stepsFor t.id .apply t.operations.registry fun slot op =>
          ⟨Engine.undoing "Restore" op.describe, e.restoreRegistry slot op⟩).reverse) := by
  obtain ⟨scripts, heq, hall⟩ := restoreSteps_eq ht e
  have hnil : scripts = [] := List.eq_nil_iff_forall_not_mem.mpr fun st hst => by
    obtain ⟨op, hop, -⟩ := hall st hst
    rw [hscripts] at hop
    cases hop
  rw [heq, hnil, hfiles]
  rfl

/-- Nothing is noted for the tweak. -/
def Unnoted (t : Tweak) (c : Core Machine) : Prop :=
  (∀ i, c.memory.registryNote t.id i = none) ∧ ∀ i, c.memory.serviceNote t.id i = none

/-- **Restoring a plain tweak, put together** from what restoring one operation does: `S` and
`R` know how many service and registry operations are left. -/
theorem restoreSteps_along {P W : Core Machine → Prop} {S R : Nat → Core Machine → Prop}
    (he : e.WorksOn) (hm₀ : m₀.Willing) (ht : t.Plain) {steps : List (Step Machine)}
    (hsteps : e.restoreSteps t.id t.operations = .ok steps)
    (hstop : ∀ s, cancelled s = true → P s.core → W s.core)
    (haside : ∀ st : Step Machine, e.Aside m₀ st.run → st.Takes P P W)
    (hservice : ∀ i op label, t.operations.services[i]? = some op →
      (⟨label, e.restoreService ⟨t.id, .apply, i⟩ op⟩ : Step Machine).Takes (S (i + 1)) (S i) W)
    (hregistry : ∀ i op label, t.operations.registry[i]? = some op →
      (⟨label, e.restoreRegistry ⟨t.id, .apply, i⟩ op⟩ : Step Machine).Takes (R (i + 1)) (R i) W)
    (hS : ∀ i c, S i c → P c) (hR : ∀ i c, R i c → P c)
    (hfirst : ∀ c, P c → S t.operations.services.length c)
    (hnext : ∀ c, S 0 c → R t.operations.registry.length c) :
    Engine.Leads cancelled steps P (R 0) W := by
  obtain ⟨scripts, heq, hscripts⟩ := restoreSteps_eq ht e
  cases hsteps.symm.trans heq
  have hothers : ∀ {others : List (Step Machine)}, (∀ st ∈ others, e.Aside m₀ st.run) →
      Engine.Leads cancelled others P P W := fun h =>
    Engine.leads_keeping hstop fun st hst => haside st (h st hst)
  have hservices : Engine.Leads cancelled
      (Engine.stepsFor t.id .apply t.operations.services fun slot op =>
        ⟨Engine.undoing "Restore" op.describe, e.restoreService slot op⟩).reverse
      (S t.operations.services.length) (S 0) W :=
    Engine.leads_downward (fun i s hs h => hstop s hs (hS i _ h)) fun i op => hservice i op _
  have hrest : Engine.Leads cancelled
      (Engine.stepsFor t.id .apply t.operations.registry fun slot op =>
        ⟨Engine.undoing "Restore" op.describe, e.restoreRegistry slot op⟩).reverse
      (R t.operations.registry.length) (R 0) W :=
    Engine.leads_downward (fun i s hs h => hstop s hs (hR i _ h)) fun i op => hregistry i op _
  refine (((hothers ?_).append (hothers ?_)).append (hservices.imp hfirst fun _ => id)).append
    (hrest.imp hnext fun _ => id)
  · intro st hst
    obtain ⟨⟨op, i⟩, hmem, rfl⟩ := List.mem_map.mp (List.mem_reverse.mp hst)
    exact .restoreFile hm₀ he (ht.files op (List.fst_mem_of_mem_zipIdx hmem))
  · intro st hst
    obtain ⟨op, hop, hrun⟩ := hscripts st hst
    rw [hrun]
    exact .revertScript hm₀ he (ht.scripts op hop)

/-- **Restoring a plain tweak** keeps registry and services recoverable, both from the
notes that are left and from those at the beginning.  A run that succeeds leaves no note,
and a run is cut short only by a cancellation or by a script that does not answer with
texts. -/
theorem restoreSteps_leads (cancelled : Session Machine → Bool) (c₀ : Core Machine)
    (he : e.Faithful) (hm₀ : m₀.Regular) (ht : t.Plain)
    {steps : List (Step Machine)} (hsteps : e.restoreSteps t.id t.operations = .ok steps) :
    Engine.Leads cancelled steps (Reverting t m₀ c₀)
      (fun c => Reverting t m₀ c₀ c ∧ Unnoted t c)
      (fun c => Reverting t m₀ c₀ c ∧ ¬Unhindered m₀ cancelled) := by
  have hruns : Engine.Leads cancelled steps (Reverting t m₀ c₀) (RegistryBack t m₀ c₀ 0)
      (fun c => Reverting t m₀ c₀ c ∧ ¬Unhindered m₀ cancelled) := by
    refine restoreSteps_along he.toWorksOn hm₀.toOpen.willing ht hsteps ?_ ?_
      (fun i op label hi => restoreService_takes he hm₀ ht hi label)
      (fun i op label hi => restoreRegistry_takes he hm₀ ht hi label)
      (fun i c h => h.toReverting) (fun i c h => h.toReverting) ?_ ?_
    · exact fun s hs h => ⟨h, fun hboth => by rw [hboth.2 s] at hs; cases hs⟩
    · exact fun st hst => hst.takes (fun c h => h.kept.settings)
        (fun c c' hs h => h.of_standing hs) fun c h hnot => ⟨h, fun hun => hnot ⟨he, hun.1⟩⟩
    · exact fun c h => ⟨h, h.kept.services.none_beyond⟩
    · exact fun c h => ⟨h.toReverting, fun j => h.services_gone j (Nat.zero_le j),
        h.kept.registry.none_beyond⟩
  exact hruns.imp (fun _ => id) fun c h =>
    ⟨h.toReverting, fun j => h.registry_gone j (Nat.zero_le j), h.services_gone⟩

/-- Every service that is noted exists. -/
structure Restoring (t : Tweak) (m₀ : Machine) (c : Core Machine) : Prop where
  settings : c.machine.settings = m₀.settings
  found : ∀ i op, t.operations.services[i]? = some op → c.memory.serviceNote t.id i ≠ none →
    ∃ x, Assoc.get? (Machine.serviceOf op.service) c.machine.services = some x

theorem Kept.restoring (h : Kept t m₀ c) : Restoring t m₀ c := by
  refine ⟨h.settings, fun i op hi hn => ?_⟩
  exact h.services.exists_noted (serviceAt_eq hi) hn

/-- Restoring a registry operation does not fail. -/
theorem Restoring.registry_ok {op : RegistryOperation} {s : Session Machine}
    (hs : Restoring t m₀ s.core) (he : e.Faithful) (h₀ : m₀.Willing) (hop : op.Textual) (slot : Slot) :
    (∃ note?, ((e.restoreRegistry slot op).on s).1 = .ok note?) ∧
      Restoring t m₀ ((e.restoreRegistry slot op).on s).2.core := by
  cases hc : Assoc.get? slot s.core.memory.registry with
  | none =>
    rw [Engine.restoreRegistry_on_none slot hc]
    exact ⟨⟨_, rfl⟩, hs⟩
  | some d =>
    obtain ⟨s', m', hs', hm', hcore⟩ :=
      Engine.restoreRegistry_on he slot (h₀.of_settings hs.settings) hop hc
    obtain ⟨hsettings, hservices⟩ := hm'.frame
    rw [hs', hcore]
    exact ⟨⟨_, rfl⟩, hsettings.trans hs.settings, fun i op hi hn => hservices ▸ hs.found i op hi hn⟩

/-- Restoring a service operation does not fail. -/
theorem Restoring.service_ok {op : ServiceOperation} {s : Session Machine}
    (hs : Restoring t m₀ s.core) (he : e.Faithful) (h₀ : m₀.Willing) (hop : op.service.IsText)
    (hi : t.operations.services[i]? = some op) :
    (∃ note?, ((e.restoreService ⟨t.id, .apply, i⟩ op).on s).1 = .ok note?) ∧
      Restoring t m₀ ((e.restoreService ⟨t.id, .apply, i⟩ op).on s).2.core := by
  cases hc : s.core.memory.serviceNote t.id i with
  | none =>
    rw [Engine.restoreService_on_none ⟨t.id, .apply, i⟩ hc]
    exact ⟨⟨_, rfl⟩, hs⟩
  | some d =>
    obtain ⟨x, hx⟩ := hs.found i op hi (by rw [hc]; exact nofun)
    obtain ⟨s', m', hs', hm', hcore⟩ := Engine.restoreService_on he ⟨t.id, .apply, i⟩
      (h₀.of_settings hs.settings) hop hc hx
    rw [hs', hcore]
    refine ⟨⟨_, rfl⟩, hm'.settings.trans hs.settings, fun j op' hj hn => ?_⟩
    have hnote : s.core.memory.serviceNote t.id j ≠ none := fun hnone => hn (by
      rw [Memory.serviceNote, Assoc.get?_erase]
      split
      · rfl
      · exact hnone)
    obtain ⟨y, hy⟩ := hs.found j op' hj hnote
    rw [hm'.services]
    split
    · exact ⟨_, rfl⟩
    · exact ⟨y, hy⟩

/-- Restoring a tweak without scripts and file operations has no failures. -/
theorem restoreSteps_unfailing (he : e.Faithful) (h₀ : m₀.Willing) (ht : t.Plain)
    (hscripts : t.operations.scripts = []) (hfiles : t.operations.files = [])
    {steps : List (Step Machine)} (hsteps : e.restoreSteps t.id t.operations = .ok steps)
    {r r' : Result} {s s' : Session Machine} (hs : Restoring t m₀ s.core)
    (hrun : (Engine.execute cancelled steps r).on s = (.ok r', s')) : r'.failed = r.failed := by
  obtain ⟨scripts, heq, hall⟩ := restoreSteps_eq ht e
  cases hsteps.symm.trans heq
  refine Engine.execute_failed (P := Restoring t m₀) (fun st hst s hs => ?_) hs hrun
  simp only [List.mem_append, Engine.stepsFor, List.mem_reverse, List.mem_map] at hst
  obtain ((⟨⟨op, i⟩, hmem, rfl⟩ | hst) | ⟨⟨op, i⟩, hmem, rfl⟩) | ⟨⟨op, i⟩, hmem, rfl⟩ := hst
  · rw [hfiles] at hmem
    cases hmem
  · obtain ⟨op, hop, -⟩ := hall st hst
    rw [hscripts] at hop
    cases hop
  · exact hs.service_ok he h₀ (ht.services op (List.fst_mem_of_mem_zipIdx hmem))
      (List.mk_mem_zipIdx_iff_getElem?.mp hmem)
  · exact hs.registry_ok he h₀ (ht.textual op (List.fst_mem_of_mem_zipIdx hmem)) _

end TweakEngine
