/-
# Runs of a tweak on a machine

`Kept t m₀ c` says that the registry and the services of a session's machine can be
brought back to those of `m₀` from what the session has noted for the tweak `t`.
Running the tweak keeps this, wherever the run is cut short (`runSteps_leads`): each
registry and service operation runs when those before it are noted.
-/

import TweakEngine.Proofs.OtherSteps
import TweakEngine.Proofs.RegistryKept
import TweakEngine.Proofs.ServicesKept

namespace TweakEngine

open Session

namespace Memory

/-- What is noted for the registry operation at a position. -/
def registryNote (c : Memory) (id : String) (i : Nat) : Option RegistryCapture :=
  Assoc.get? ⟨id, .apply, i⟩ c.registry

/-- What is noted for the service operation at a position. -/
def serviceNote (c : Memory) (id : String) (i : Nat) : Option ServiceCapture :=
  Assoc.get? ⟨id, .apply, i⟩ c.services

end Memory

/-- A note that is kept already stays; otherwise the new one is kept. -/
theorem Captures.get?_keep {α : Type} (slot slot' : Slot) (a : α) (c : Captures α) :
    Assoc.get? slot' (Captures.keep slot a c).1 =
      if slot = slot' then some ((Assoc.get? slot c).getD a) else Assoc.get? slot' c := by
  unfold Captures.keep
  cases hc : Assoc.get? slot c with
  | some b =>
    by_cases h : slot = slot'
    · rw [if_pos h, ← h]; exact hc
    · rw [if_neg h]
  | none =>
    rw [Assoc.get?_put]
    rfl

/-- What a tweak has noted after one of its notes is kept. -/
theorem Captures.get?_keep_index {α : Type} (id : String) (i j : Nat) (a : α) (c : Captures α) :
    Assoc.get? ⟨id, .apply, j⟩ (Captures.keep ⟨id, .apply, i⟩ a c).1 =
      if j = i then some ((Assoc.get? ⟨id, .apply, i⟩ c).getD a)
      else Assoc.get? ⟨id, .apply, j⟩ c := by
  rw [Captures.get?_keep]
  simp only [Slot.mk.injEq, true_and, eq_comm (a := i)]

/-- What a tweak has noted after one of its notes is struck out. -/
theorem Captures.get?_erase_index {α : Type} (id : String) (i j : Nat) (c : Captures α) :
    Assoc.get? ⟨id, .apply, j⟩ (Assoc.erase ⟨id, .apply, i⟩ c) =
      if j = i then none else Assoc.get? ⟨id, .apply, j⟩ c := by
  rw [Assoc.get?_erase]
  simp only [Slot.mk.injEq, true_and, eq_comm (a := i)]

/-- The operations are those that restoring can undo, and their text fields hold texts. -/
structure Tweak.Plain (t : Tweak) : Prop extends t.PlainRegistry where
  services : ∀ op ∈ t.operations.services, op.service.IsText
  scripts : ∀ op ∈ t.operations.scripts, op.Textual
  files : ∀ op ∈ t.operations.files, op.Textual

/-- A machine that shows all its keys, refuses nothing, has no key below a missing one,
and whose services are running or stopped and have known start types. -/
structure Machine.Regular (m : Machine) : Prop extends m.Open where
  rooted : m.Rooted
  settled : m.Settled

/-- The files of a session and its store. -/
def Core.shelf (c : Core Machine) : Disk × Option Snapshot.Store := (c.disk, c.store)

/-- Registry and services of the machine can be brought back from the notes. -/
structure Kept (t : Tweak) (m₀ : Machine) (c : Core Machine) : Prop where
  settings : c.machine.settings = m₀.settings
  registry : RegistryKept t m₀ c.machine (c.memory.registryNote t.id)
  services : ServicesKept t m₀ c.machine (c.memory.serviceNote t.id)

variable {t : Tweak} {m₀ : Machine} {c c' : Core Machine} {e : Engine Machine} {i : Nat}
  {shelf : Disk × Option Snapshot.Store} {cancelled : Session Machine → Bool}

theorem Core.registryNote_of_standing (hs : c'.standing = c.standing) (id : String) :
    c'.memory.registryNote id = c.memory.registryNote id := by
  obtain ⟨-, -, -, hregistry, -, -, -⟩ := Standing.mk.inj hs
  exact funext fun i => by rw [Memory.registryNote, Memory.registryNote, hregistry]

theorem Core.serviceNote_of_standing (hs : c'.standing = c.standing) (id : String) :
    c'.memory.serviceNote id = c.memory.serviceNote id := by
  obtain ⟨-, -, -, -, hservices, -, -⟩ := Standing.mk.inj hs
  exact funext fun i => by rw [Memory.serviceNote, Memory.serviceNote, hservices]

theorem Kept.of_standing (h : Kept t m₀ c) (hs : c'.standing = c.standing) : Kept t m₀ c' := by
  obtain ⟨hsettings, hkeys, hservices, -, -, -, -⟩ := Standing.mk.inj hs
  refine ⟨hsettings.trans h.settings, ?_, ?_⟩
  · rw [Core.registryNote_of_standing hs]
    exact h.registry.of_keys hkeys
  · rw [Core.serviceNote_of_standing hs]
    exact h.services.of_services hservices

theorem Core.shelf_of_standing (hs : c'.standing = c.standing) : c'.shelf = c.shelf := by
  obtain ⟨-, -, -, -, -, h₆, h₇⟩ := Standing.mk.inj hs
  rw [Core.shelf, Core.shelf, h₆, h₇]

/-- A step that leaves the registry and services alone keeps what only looks at these. -/
theorem Engine.Aside.takes {st : Step Machine} {P W : Core Machine → Prop}
    (h : e.Aside m₀ st.run) (hset : ∀ c, P c → c.machine.settings = m₀.settings)
    (hP : ∀ c c', c'.standing = c.standing → P c → P c')
    (hW : ∀ c, P c → ¬(e.Faithful ∧ m₀.Outspoken) → W c) : st.Takes P P W := by
  intro s hs
  obtain ⟨h₁, h₂⟩ := h s (hset _ hs)
  have hs' := hP _ _ h₁ hs
  cases hgo : goesOn (st.run.on s).1 with
  | true => exact hs'
  | false =>
    refine hW _ hs' fun hboth => ?_
    rw [h₂ hboth.1 hboth.2] at hgo
    cases hgo

/-- The first registry operations have run. -/
structure RegistryRun (t : Tweak) (m₀ : Machine) (shelf : Disk × Option Snapshot.Store) (i : Nat)
    (c : Core Machine) : Prop where
  kept : Kept t m₀ c
  shelf : c.shelf = shelf
  noted : ∀ j < i, c.memory.registryNote t.id j ≠ none
  clear : t.Clear i

/-- A run of the tweak has been going on; when it was a `whole` one, every registry
operation that it comes to is noted. -/
structure Ran (whole : Prop) (t : Tweak) (m₀ : Machine) (shelf : Disk × Option Snapshot.Store)
    (c : Core Machine) : Prop where
  kept : Kept t m₀ c
  shelf : c.shelf = shelf
  all : whole → ∀ j, t.Reaches j → c.memory.registryNote t.id j ≠ none

theorem Ran.imp {whole whole' : Prop} (h : Ran whole t m₀ shelf c) (hw : whole' → whole) :
    Ran whole' t m₀ shelf c := ⟨h.kept, h.shelf, fun hw' => h.all (hw hw')⟩

theorem Ran.of_standing {whole : Prop} (h : Ran whole t m₀ shelf c)
    (hs : c'.standing = c.standing) : Ran whole t m₀ shelf c' :=
  ⟨h.kept.of_standing hs, (Core.shelf_of_standing hs).trans h.shelf, fun hw j hj => by
    rw [Core.registryNote_of_standing hs]
    exact h.all hw j hj⟩

theorem issues_isRegistry {op : RegistryOperation} {w : Write} (h : op.issues w) :
    w.isRegistry = true := by
  unfold RegistryOperation.issues at h
  split at h
  · rw [h]; rfl
  · rw [h]; rfl
  · obtain ⟨v, -, rfl⟩ := h; rfl
  · rw [h]; rfl

/-- Noting before a registry operation. -/
theorem Kept.noted {op : RegistryOperation} (h : Kept t m₀ c)
    (hi : t.operations.registry[i]? = some op) (hclear : t.Clear i)
    (lower : ∀ j < i, c.memory.registryNote t.id j ≠ none) :
    Kept t m₀ (Engine.noted c ⟨t.id, .apply, i⟩ op) ∧
      ∀ j < i + 1, (Engine.noted c ⟨t.id, .apply, i⟩ op).memory.registryNote t.id j ≠ none := by
  have now := fun j => Captures.get?_keep_index t.id i j (op.noteOf c.machine) c.memory.registry
  have hreach : t.Reaches i := ⟨(List.getElem?_eq_some_iff.mp hi).1, hclear⟩
  exact ⟨⟨h.settings, h.registry.keep hi hreach lower now, h.services⟩, fun j hj =>
    keep_ne_none now ((Nat.lt_succ_iff_lt_or_eq.mp hj).imp_left (lower j))⟩

/-- Running a registry operation after those before it. -/
theorem runRegistry_takes {op : RegistryOperation} (he : e.WorksOn) (hm₀ : m₀.Regular)
    (ht : t.Plain) (hi : t.operations.registry[i]? = some op) (label : Datum) :
    (⟨label, e.runRegistry ⟨t.id, .apply, i⟩ op⟩ : Step Machine).Takes
      (RegistryRun t m₀ shelf i) (RegistryRun t m₀ shelf (i + 1))
      (Ran e.Faithful t m₀ shelf) := by
  intro s hs
  obtain ⟨r, s', hs', hfail, hgo, hcore⟩ := Engine.runRegistry_on he ⟨t.id, .apply, i⟩
    (hm₀.toOpen.of_settings hs.kept.settings) (ht.textual op (List.mem_of_getElem? hi))
  obtain ⟨hkept, hnoted⟩ := hs.kept.noted hi hs.clear hs.noted
  have hkept' : Kept t m₀ s'.core ∧ s'.core.shelf = shelf ∧
      ∀ j < i + 1, s'.core.memory.registryNote t.id j ≠ none := by
    rcases hcore with h | ⟨w, x, m', hw, ha, h⟩
    · rw [h]
      exact ⟨hkept, hs.shelf, hnoted⟩
    · rw [h]
      obtain ⟨h₁, h₂, -⟩ := Machine.apply_registry_frame (issues_isRegistry hw) ha
      exact ⟨⟨h₁.trans hkept.settings,
        hkept.registry.issue ht.toPlainRegistry hi (hnoted i (by omega)) hw ha,
        hkept.services.of_services h₂⟩, hs.shelf, hnoted⟩
  dsimp only
  rw [hs']
  cases hr : goesOn r with
  | true =>
    refine ⟨hkept'.1, hkept'.2.1, hkept'.2.2, hs.clear.succ hi fun ha => ?_⟩
    cases hv : op.resolveValue with
    | ok v => rfl
    | error f =>
      rw [hfail f ha hv] at hr
      exact hr
  | false =>
    refine ⟨hkept'.1, hkept'.2.1, fun hf j hj => ?_⟩
    rcases Nat.lt_or_ge j (i + 1) with hlt | hge
    · exact hkept'.2.2 j hlt
    · rw [hgo hf fun ha => hj.2 i (by omega) op hi ha] at hr
      cases hr

/-- The first service operations have run, after all registry operations. -/
structure ServiceRun (t : Tweak) (m₀ : Machine) (shelf : Disk × Option Snapshot.Store) (i : Nat)
    (c : Core Machine) : Prop extends Ran True t m₀ shelf c where
  noted : ∀ j < i, ∀ n, t.serviceAt j = some n → (Assoc.get? n m₀.services).isSome = true →
    c.memory.serviceNote t.id j ≠ none

theorem serviceAt_eq {op : ServiceOperation} (hi : t.operations.services[i]? = some op) :
    t.serviceAt i = some (Machine.serviceOf op.service) := by
  rw [Tweak.serviceAt, hi, Option.map_some]

/-- Noting before a service operation. -/
theorem ServiceRun.noted_next {op : ServiceOperation} {x : Machine.Service}
    (h : ServiceRun t m₀ shelf i c) (hm₀ : m₀.Settled)
    (hi : t.operations.services[i]? = some op)
    (hx : Assoc.get? (Machine.serviceOf op.service) c.machine.services = some x) :
    ServiceRun t m₀ shelf (i + 1) (Engine.notedService c ⟨t.id, .apply, i⟩ x) := by
  have now := fun j =>
    Captures.get?_keep_index t.id i j ⟨x.startup, some x.state⟩ c.memory.services
  have hsome := h.kept.services.isSome_of_get? hx
  have hservices := h.kept.services.keep hm₀ (serviceAt_eq hi) hx
    (fun j hj hjn => h.noted j hj _ hjn hsome) now
  exact ⟨⟨⟨h.kept.settings, h.kept.registry, hservices⟩, h.shelf, h.all⟩, fun j hj n hn hsome' =>
    keep_ne_none now ((Nat.lt_succ_iff_lt_or_eq.mp hj).imp_left fun hlt =>
      h.noted j hlt n hn hsome')⟩

/-- Running a service operation after those before it. -/
theorem runService_takes {op : ServiceOperation} (he : e.WorksOn) (hm₀ : m₀.Regular)
    (ht : t.Plain) (hi : t.operations.services[i]? = some op) (label : Datum) :
    (⟨label, e.runService ⟨t.id, .apply, i⟩ op⟩ : Step Machine).Takes
      (ServiceRun t m₀ shelf i) (ServiceRun t m₀ shelf (i + 1))
      (Ran True t m₀ shelf) := by
  intro s hs
  have hopen := hm₀.toOpen.willing.of_settings hs.kept.settings
  have htext := ht.services op (List.mem_of_getElem? hi)
  have hnext : ServiceRun t m₀ shelf (i + 1)
      ((e.runService ⟨t.id, .apply, i⟩ op).on s).2.core := by
    cases hx : Assoc.get? (Machine.serviceOf op.service) s.core.machine.services with
    | none =>
      obtain ⟨f, hf⟩ := Engine.runService_on_none he ⟨t.id, .apply, i⟩ hopen htext hx
      rw [hf]
      refine ⟨hs.toRan, fun j hj n hn hsome => ?_⟩
      rcases Nat.lt_succ_iff_lt_or_eq.mp hj with hlt | rfl
      · exact hs.noted j hlt n hn hsome
      · obtain rfl := Option.some.inj ((serviceAt_eq hi).symm.trans hn)
        rw [← hs.kept.services.isSome_iff, hx] at hsome
        cases hsome
    | some x =>
      have hnoted := hs.noted_next hm₀.settled hi hx
      obtain ⟨r, s', hs', hcore⟩ :=
        Engine.runService_on he ⟨t.id, .apply, i⟩ hopen htext hx
      rw [hs']
      rcases hcore with h | ⟨w, a, m', hw, ha, h⟩
      · exact h ▸ hnoted
      · have hserv : w.isService = true := by
          rcases serviceWrite_eq hw with rfl | rfl | ⟨_, rfl⟩ <;> rfl
        obtain ⟨h₁, h₂, -⟩ := Machine.apply_service_frame hserv ha
        have hsome := hs.kept.services.isSome_of_get? hx
        rw [h]
        exact ⟨⟨⟨h₁.trans hnoted.kept.settings, hnoted.kept.registry.of_keys h₂,
          hnoted.kept.services.issue htext hi
            (hnoted.noted i (by omega) _ (serviceAt_eq hi) hsome) hx hw ha⟩,
          hnoted.shelf, hnoted.all⟩, hnoted.noted⟩
  cases hgo : goesOn ((e.runService ⟨t.id, .apply, i⟩ op).on s).1 with
  | true => exact hnext
  | false => exact hnext.toRan

/-- A script that is a text can be described. -/
theorem ScriptOperation.Textual.describe {op : ScriptOperation} (h : op.Textual) :
    ∃ d, op.describe = .ok d := by
  obtain ⟨s, hs⟩ := h.script
  unfold ScriptOperation.describe
  split
  · exact ⟨_, rfl⟩
  · rw [hs]
    exact ⟨_, rfl⟩

/-- The steps of a plain tweak: registry, services, scripts and files. -/
theorem runSteps_eq (ht : t.Plain) (e : Engine Machine) : ∃ scripts,
    e.runSteps t.id .apply t.operations = .ok
      (Engine.stepsFor t.id .apply t.operations.registry
          (fun slot op => ⟨op.describe, e.runRegistry slot op⟩) ++
        Engine.stepsFor t.id .apply t.operations.services
          (fun slot op => ⟨op.describe, e.runService slot op⟩) ++
        scripts ++
        Engine.stepsFor t.id .apply t.operations.files
          (fun slot op => ⟨op.describe, e.runFile slot op⟩)) ∧
      ∀ st ∈ scripts, ∃ op ∈ t.operations.scripts, st.run = e.runScript op := by
  obtain ⟨scripts, hscripts⟩ := mapM_ok t.operations.scripts
    (f := fun op => do return (⟨← op.describe, e.runScript op⟩ : Step Machine)) fun op hop => by
      obtain ⟨d, hd⟩ := (ht.scripts op hop).describe
      exact ⟨_, by rw [hd]; rfl⟩
  refine ⟨scripts, by unfold Engine.runSteps; rw [hscripts]; rfl, fun st hst => ?_⟩
  obtain ⟨op, hop, h⟩ := mem_of_mapM hscripts st hst
  obtain ⟨d, -, h⟩ := ok_of_bind h
  cases h
  exact ⟨op, hop, rfl⟩

/-- The steps of a plain tweak with only registry and service operations. -/
theorem runSteps_bare (ht : t.Plain) (hscripts : t.operations.scripts = [])
    (hfiles : t.operations.files = []) (e : Engine Machine) :
    e.runSteps t.id .apply t.operations = .ok
      (Engine.stepsFor t.id .apply t.operations.registry
          (fun slot op => ⟨op.describe, e.runRegistry slot op⟩) ++
        Engine.stepsFor t.id .apply t.operations.services
          (fun slot op => ⟨op.describe, e.runService slot op⟩)) := by
  obtain ⟨scripts, heq, hall⟩ := runSteps_eq ht e
  have hnil : scripts = [] := List.eq_nil_iff_forall_not_mem.mpr fun st hst => by
    obtain ⟨op, hop, -⟩ := hall st hst
    rw [hscripts] at hop
    cases hop
  rw [heq, hnil, hfiles, List.append_nil]
  exact congrArg Except.ok (List.append_nil _)

/-- **Running a plain tweak** keeps registry and services recoverable, wherever the run is
cut short.  A run that comes to its end notes every registry operation that it comes to,
and so does a run that is cut short neither by a refusal nor by a cancellation. -/
theorem runSteps_leads (cancelled : Session Machine → Bool)
    (shelf : Disk × Option Snapshot.Store) (he : e.WorksOn) (hm₀ : m₀.Regular) (ht : t.Plain)
    {steps : List (Step Machine)} (hsteps : e.runSteps t.id .apply t.operations = .ok steps) :
    Engine.Leads cancelled steps (Ran False t m₀ shelf) (Ran True t m₀ shelf)
      (Ran (e.Faithful ∧ ∀ s, cancelled s = false) t m₀ shelf) := by
  obtain ⟨scripts, heq, hscripts⟩ := runSteps_eq ht e
  cases hsteps.symm.trans heq
  have hregistry : Engine.Leads cancelled
      (Engine.stepsFor t.id .apply t.operations.registry
        fun slot op => ⟨op.describe, e.runRegistry slot op⟩)
      (RegistryRun t m₀ shelf 0) (RegistryRun t m₀ shelf t.operations.registry.length)
      (Ran (e.Faithful ∧ ∀ s, cancelled s = false) t m₀ shelf) :=
    Engine.leads_upward
      (fun i s hc h => ⟨h.kept, h.shelf, fun hw => by rw [hw.2 s] at hc; cases hc⟩)
      fun i op hi => (runRegistry_takes he hm₀ ht hi op.describe).weaken
        fun c h => h.imp And.left
  have hservices : Engine.Leads cancelled
      (Engine.stepsFor t.id .apply t.operations.services
        fun slot op => ⟨op.describe, e.runService slot op⟩)
      (ServiceRun t m₀ shelf 0) (ServiceRun t m₀ shelf t.operations.services.length)
      (Ran (e.Faithful ∧ ∀ s, cancelled s = false) t m₀ shelf) :=
    Engine.leads_upward (fun i s _ h => h.toRan.imp fun _ => trivial)
      fun i op hi => (runService_takes he hm₀ ht hi op.describe).weaken
        fun c h => h.imp fun _ => trivial
  have hothers : ∀ {others : List (Step Machine)}, (∀ st ∈ others, e.Aside m₀ st.run) →
      Engine.Leads cancelled others (Ran True t m₀ shelf) (Ran True t m₀ shelf)
        (Ran (e.Faithful ∧ ∀ s, cancelled s = false) t m₀ shelf) := fun h =>
    Engine.leads_keeping (fun s _ h => h.imp fun _ => trivial) fun st hst =>
      (h st hst).takes (fun c hc => hc.kept.settings) (fun c c' hs hc => hc.of_standing hs)
        fun c hc _ => hc.imp fun _ => trivial
  refine (((hregistry.imp ?_ ?_).append (hservices.imp (fun _ => id) ?_)).append
    (hothers ?_)).append (hothers ?_)
  · exact fun c h => ⟨h.kept, h.shelf, fun _ hj => absurd hj (Nat.not_lt_zero _),
      fun _ hj => absurd hj (Nat.not_lt_zero _)⟩
  · exact fun c h => ⟨⟨h.kept, h.shelf, fun _ j hj => h.noted j hj.1⟩,
      fun _ hj => absurd hj (Nat.not_lt_zero _)⟩
  · exact fun c h => h.toRan
  · intro st hst
    obtain ⟨op, hop, hrun⟩ := hscripts st hst
    rw [hrun]
    exact .runScript hm₀.toOpen.willing he (ht.scripts op hop)
  · intro st hst
    obtain ⟨⟨op, i⟩, hmem, rfl⟩ := List.mem_map.mp hst
    exact .runFile hm₀.toOpen.willing he (ht.files op (List.fst_mem_of_mem_zipIdx hmem))

end TweakEngine
