/-
# Batches of tweaks on a machine

`Held ts m₀ c` says that the registry and the services of a session's machine can be
brought back to those of `m₀` from what the session has noted for the tweaks `ts`.  A batch
that applies the tweaks keeps this, and each operation runs when those before it in the row
are noted (`apply_gathers`).  A batch that reverts them strikes the notes out again.  It
keeps this when no tweak is reverted before a later one that shares a value or a service
with it (`Unwinds`): then nothing on its values and services is noted later in the row
(`revert_returns`).
-/

import TweakEngine.Execution.Batch
import TweakEngine.Proofs.JointNotes

namespace TweakEngine

open Session

/-- Tweaks that can be brought back, with an identifier of their own each, that have only
registry and service operations. -/
structure Restorables (ts : List Tweak) : Prop where
  restorable : ∀ t ∈ ts, t.Restorable
  scripts : ∀ t ∈ ts, t.operations.scripts = []
  files : ∀ t ∈ ts, t.operations.files = []
  ids : (ts.map Tweak.id).Nodup

/-- Registry and services of the machine can be brought back from the notes of tweaks. -/
structure Held (ts : List Tweak) (m₀ : Machine) (c : Core Machine) : Prop where
  settings : c.machine.settings = m₀.settings
  store : c.store = none
  registry : RegistryKept (joint ts) m₀ c.machine (noteAt (registryRow ts) c.memory.registry)
  services : ServicesKept (joint ts) m₀ c.machine (noteAt (serviceRow ts) c.memory.services)
  /-- Only operations that a tweak comes to are noted. -/
  registryNotes : ∀ t ∈ ts, ∀ i, c.memory.registryNote t.id i ≠ none → i < t.attempted.length
  serviceNotes : ∀ t ∈ ts, ∀ i, c.memory.serviceNote t.id i ≠ none → i < t.serviced.length

variable {ts before after done rest us : List Tweak} {t u : Tweak} {m₀ : Machine} {c : Core Machine}
  {e : Engine Machine} {s : Session Machine} {i k l : Nat}

theorem Restorables.plain (h : Restorables ts) : (joint ts).PlainRegistry :=
  joint_plain fun t ht => (h.restorable t ht).toPlainRegistry

/-- Nothing is noted in the row when nothing is noted for the tweaks. -/
theorem noteAt_eq_none {ω C : Type} {ops : Tweak → List ω} {notes : Captures C}
    (h : ∀ t ∈ ts, ∀ i, Assoc.get? ⟨t.id, .apply, i⟩ notes = none) (k : Nat) :
    noteAt (row ops ts) notes k = none := by
  unfold noteAt
  cases hk : (row ops ts)[k]? with
  | none => rfl
  | some x => exact h x.tweak (mem_row_of_getElem? hk).1 x.index

theorem Held.refl (hm : c.machine.Settled) (hstore : c.store = none)
    (hn : ∀ t ∈ ts, Unnoted t c) : Held ts c.machine c where
  settings := rfl
  store := hstore
  registry := .refl (noteAt_eq_none fun t ht => (hn t ht).1)
  services := .refl hm (noteAt_eq_none fun t ht => (hn t ht).2)
  registryNotes := fun t ht i hi => absurd ((hn t ht).1 i) hi
  serviceNotes := fun t ht i hi => absurd ((hn t ht).2 i) hi

/-! ## Applying -/

/-- The first operations of the row have run: `k` of the registry, and `l` on services. -/
structure Gathered (ts : List Tweak) (m₀ : Machine) (k l : Nat) (c : Core Machine) : Prop
    extends Held ts m₀ c where
  registry_noted : ∀ j < k, noteAt (registryRow ts) c.memory.registry j ≠ none
  services_noted : ∀ j < l, ∀ n, (joint ts).serviceAt j = some n →
    (Assoc.get? n m₀.services).isSome = true →
      noteAt (serviceRow ts) c.memory.services j ≠ none

/-- A slot of the row in which something was noted belongs to an operation that its tweak
comes to. -/
theorem lt_of_slot {ω : Type} {ops : Tweak → List ω} {x : Numbered ω} (ids : (ts.map Tweak.id).Nodup)
    (hk : (row ops ts)[k]? = some x) (ht : t ∈ ts) (h : x.slot = ⟨t.id, .apply, i⟩) :
    i < (ops t).length := by
  obtain ⟨hx, hop⟩ := mem_row_of_getElem? hk
  obtain ⟨hid, -, rfl⟩ := Slot.mk.inj h
  obtain rfl := tweak_eq_of_id ids hx ht hid
  exact (List.getElem?_eq_some_iff.mp hop).1

/-- Noting before a registry operation of the row. -/
theorem Gathered.noted {x : Numbered RegistryOperation} (h : Gathered ts m₀ k l c)
    (ids : (ts.map Tweak.id).Nodup) (hk : (registryRow ts)[k]? = some x) :
    Gathered ts m₀ (k + 1) l (Engine.noted c x.slot x.op) := by
  have now := noteAt_keep ids c.memory.registry hk (x.op.noteOf c.machine)
  refine ⟨⟨h.settings, h.store, ?_, h.services, fun t ht i hn => ?_, h.serviceNotes⟩,
    fun j hj => ?_, h.services_noted⟩
  · exact h.registry.keep (joint_registry hk)
      (joint_reaches (List.getElem?_eq_some_iff.mp hk).1) h.registry_noted now
  · by_cases hslot : x.slot = ⟨t.id, .apply, i⟩
    · exact lt_of_slot ids hk ht hslot
    · rw [Memory.registryNote, Engine.noted, Captures.get?_keep, if_neg hslot] at hn
      exact h.registryNotes t ht i hn
  · exact keep_ne_none now (Nat.lt_succ_iff_lt_or_eq.mp hj |>.imp_left (h.registry_noted j))

/-- Running a registry operation of the row.  The run ends with it just when its payload
stops the run. -/
theorem Gathered.runRegistry {x : Numbered RegistryOperation} {op : RegistryOperation}
    (h : Gathered ts m₀ k l s.core) (he : e.Faithful) (hm₀ : m₀.Regular) (hts : Restorables ts)
    (hk : (registryRow ts)[k]? = some x)
    (hop : x.tweak.operations.registry[x.index]? = some op) (hx : x.op = op.tried) :
    Gathered ts m₀ (k + 1) l ((e.runRegistry x.slot op).on s).2.core ∧
      goesOn ((e.runRegistry x.slot op).on s).1 = !op.stops := by
  have ht := (hts.restorable _ (mem_row_of_getElem? hk).1).textual op (List.mem_of_getElem? hop)
  obtain ⟨r, s', hs', hfail, hgo, hcore⟩ :=
    Engine.runRegistry_on he.toWorksOn x.slot (hm₀.toOpen.of_settings h.settings) ht
  have hnoted := h.noted hts.ids hk
  rw [hx, Engine.noted, RegistryOperation.tried_noteOf] at hnoted
  rw [hs']
  refine ⟨?_, ?_⟩
  · rcases hcore with hcore | ⟨w, a, m', hw, ha, hcore⟩
    · exact hcore ▸ hnoted
    · obtain ⟨h₁, h₂, -⟩ := Machine.apply_registry_frame (issues_isRegistry hw) ha
      have hissue := hnoted.registry.issue hts.plain (joint_registry hk)
        (hnoted.registry_noted k (Nat.lt_succ_self k)) (hx ▸ RegistryOperation.tried_issues hw) ha
      rw [hcore]
      exact ⟨⟨h₁.trans hnoted.settings, hnoted.store, hissue, hnoted.services.of_services h₂,
        hnoted.registryNotes, hnoted.serviceNotes⟩, hnoted.registry_noted, hnoted.services_noted⟩
  · cases hstops : op.stops with
    | false => exact hgo he (RegistryOperation.stops_eq_false.mp hstops)
    | true =>
      obtain ⟨ha, hv⟩ := RegistryOperation.stops_eq_true.mp hstops
      cases hres : op.resolveValue with
      | ok v => rw [hres] at hv; cases hv
      | error f =>
        rw [hfail f ha hres]
        rw [hres] at hv
        exact hv

/-- Noting before a service operation of the row. -/
theorem Gathered.notedService {x : Numbered ServiceOperation} {y : Machine.Service}
    (h : Gathered ts m₀ k l c) (ids : (ts.map Tweak.id).Nodup) (hm₀ : m₀.Settled)
    (hl : (serviceRow ts)[l]? = some x)
    (hy : Assoc.get? (Machine.serviceOf x.op.service) c.machine.services = some y) :
    Gathered ts m₀ k (l + 1) (Engine.notedService c x.slot y) := by
  have now := noteAt_keep ids c.memory.services hl ⟨y.startup, some y.state⟩
  have hat := serviceAt_eq (joint_services hl)
  have hsome := h.services.isSome_of_get? hy
  refine ⟨⟨h.settings, h.store, h.registry, ?_, h.registryNotes, fun t ht i hn => ?_⟩,
    h.registry_noted, fun j hj n hn hsome' => ?_⟩
  · exact h.services.keep hm₀ hat hy (fun j hj hjn => h.services_noted j hj _ hjn hsome) now
  · by_cases hslot : x.slot = ⟨t.id, .apply, i⟩
    · exact lt_of_slot ids hl ht hslot
    · rw [Memory.serviceNote, Engine.notedService, Captures.get?_keep, if_neg hslot] at hn
      exact h.serviceNotes t ht i hn
  · exact keep_ne_none now
      (Nat.lt_succ_iff_lt_or_eq.mp hj |>.imp_left fun hlt => h.services_noted j hlt n hn hsome')

/-- Running a service operation of the row. -/
theorem Gathered.runService {x : Numbered ServiceOperation} (h : Gathered ts m₀ k l s.core)
    (he : e.Faithful) (hm₀ : m₀.Regular) (hts : Restorables ts)
    (hl : (serviceRow ts)[l]? = some x) :
    Gathered ts m₀ k (l + 1) ((e.runService x.slot x.op).on s).2.core := by
  have hopen := hm₀.toOpen.willing.of_settings h.settings
  have hat := serviceAt_eq (joint_services hl)
  obtain ⟨ht, hop⟩ := mem_row_of_getElem? hl
  have htext := (hts.restorable _ ht).services x.op
    (List.mem_of_getElem? (Tweak.serviced_eq_some hop))
  cases hy : Assoc.get? (Machine.serviceOf x.op.service) s.core.machine.services with
  | none =>
    obtain ⟨f, hf⟩ := Engine.runService_on_none he.toWorksOn x.slot hopen htext hy
    rw [hf]
    refine ⟨h.toHeld, h.registry_noted, fun j hj n hn hsome => ?_⟩
    rcases Nat.lt_succ_iff_lt_or_eq.mp hj with hlt | rfl
    · exact h.services_noted j hlt n hn hsome
    · obtain rfl := Option.some.inj (hat.symm.trans hn)
      rw [← h.services.isSome_iff, hy] at hsome
      cases hsome
  | some y =>
    have hnoted := h.notedService hts.ids hm₀.settled hl hy
    obtain ⟨r, s', hs', hcore⟩ := Engine.runService_on he.toWorksOn x.slot hopen htext hy
    rw [hs']
    rcases hcore with hcore | ⟨w, a, m', hw, ha, hcore⟩
    · exact hcore ▸ hnoted
    · have hserv : w.isService = true := by
        rcases serviceWrite_eq hw with rfl | rfl | ⟨_, rfl⟩ <;> rfl
      obtain ⟨h₁, h₂, -⟩ := Machine.apply_service_frame hserv ha
      have hsome := h.services.isSome_of_get? hy
      have hissue := hnoted.services.issue htext (joint_services hl)
        (hnoted.services_noted l (Nat.lt_succ_self l) _ hat hsome) hy hw ha
      rw [hcore]
      exact ⟨⟨h₁.trans hnoted.settings, hnoted.store, hnoted.registry.of_keys h₂, hissue,
        hnoted.registryNotes, hnoted.serviceNotes⟩, hnoted.registry_noted, hnoted.services_noted⟩

/-- A service operation never ends the run of an engine that refuses nothing. -/
theorem Engine.Faithful.runService_goesOn {op : ServiceOperation} (he : e.Faithful) (slot : Slot)
    (hm : s.core.machine.Willing) (hop : op.service.IsText) :
    goesOn ((e.runService slot op).on s).1 = true := by
  rw [Engine.runService, Act.on_bind, he.queryService_on hm hop, Machine.snapshot]
  cases hy : Assoc.get? (Machine.serviceOf op.service) s.core.machine.services with
  | none => rfl
  | some y =>
    simp only [Bool.not_true, Bool.false_eq_true, if_false]
    rw [Act.on_bind, Engine.capture_on]
    dsimp only
    rw [Act.on_bind, Act.on_result]
    cases hw : Engine.serviceWrite op with
    | error f =>
      unfold Engine.serviceWrite at hw
      repeat' split at hw
      all_goals cases hw
      rfl
    | ok w =>
      obtain ⟨b, m', ha, -⟩ := Machine.apply_service_text s.core.machine hop (serviceWrite_eq hw) hy
      obtain ⟨s', hs', -⟩ := he.write_on (s := servicesPart.set
        (Captures.keep slot ⟨y.startup, some y.state⟩ (servicesPart.get s)).1 s) hm ha
      dsimp only
      rw [Act.discard_bind, Act.on_bind, hs']
      rfl

/-- The tweaks of the row up to some tweak have been applied. -/
abbrev Applied (ts : List Tweak) (m₀ : Machine) (before : List Tweak) (c : Core Machine) : Prop :=
  Gathered ts m₀ (registryRow before).length (serviceRow before).length c

section

variable (he : e.Faithful) (hm₀ : m₀.Regular) (hts : Restorables (before ++ t :: after))
include he hm₀ hts

/-- The registry operations of a tweak run after those of the tweaks before it. -/
theorem applyRegistry_leads : Engine.Leads (fun _ => false)
    (Engine.stepsFor t.id .apply t.operations.registry
      fun slot op => ⟨op.describe, e.runRegistry slot op⟩)
    (Applied (before ++ t :: after) m₀ before)
    (fun c => Gathered (before ++ t :: after) m₀ ((registryRow before).length + t.attempted.length)
      (serviceRow before).length c ∧ t.Clear t.operations.registry.length)
    (Applied (before ++ t :: after) m₀ (before ++ [t])) := by
  refine (Engine.leads_upward (I := fun i c =>
      Gathered (before ++ t :: after) m₀ ((registryRow before).length + i)
        (serviceRow before).length c ∧ t.Clear i)
    (fun i s hc _ => absurd hc Bool.false_ne_true) fun i op hi s hs => ?_).imp
      (fun c h => ⟨h, fun j hj => absurd hj (Nat.not_lt_zero j)⟩) fun c h => ?_
  · have hk := row_getElem? before after (Tweak.attempted_getElem? hi hs.2)
    obtain ⟨hrun, hgo⟩ := hs.1.runRegistry he hm₀ hts hk hi rfl
    have hgo : goesOn ((e.runRegistry ⟨t.id, .apply, i⟩ op).on s).1 = !op.stops := hgo
    dsimp only
    cases hstops : op.stops with
    | false =>
      rw [if_pos (by rw [hgo, hstops]; rfl)]
      exact ⟨hrun, hs.2.succ hi (RegistryOperation.stops_eq_false.mp hstops)⟩
    | true =>
      rw [if_neg (by rw [hgo, hstops]; exact Bool.false_ne_true), Applied, length_row_snoc,
        length_row_snoc, Tweak.length_attempted_of_stops hi hs.2 hstops,
        Tweak.serviced_of_stops hi hstops]
      exact hrun
  · rw [Tweak.length_attempted_of_clear h.2]
    exact h

/-- The service operations of a tweak run after its registry operations. -/
theorem applyServices_leads : Engine.Leads (fun _ => false)
    (Engine.stepsFor t.id .apply t.operations.services
      fun slot op => ⟨op.describe, e.runService slot op⟩)
    (fun c => Gathered (before ++ t :: after) m₀ ((registryRow before).length + t.attempted.length)
      (serviceRow before).length c ∧ t.Clear t.operations.registry.length)
    (Applied (before ++ t :: after) m₀ (before ++ [t]))
    (Applied (before ++ t :: after) m₀ (before ++ [t])) := by
  refine (Engine.leads_upward (I := fun i c =>
      Gathered (before ++ t :: after) m₀ ((registryRow before).length + t.attempted.length)
        ((serviceRow before).length + i) c ∧ t.Clear t.operations.registry.length)
    (fun i s hc _ => absurd hc Bool.false_ne_true) fun i op hi s hs => ?_).imp
      (fun c h => h) fun c h => ?_
  · have hop : t.serviced[i]? = some op := by
      rw [Tweak.serviced_of_clear hs.2]
      exact hi
    have htext := (hts.restorable t (by simp)).services op (List.mem_of_getElem? hi)
    have hgo := he.runService_goesOn ⟨t.id, .apply, i⟩
      (hm₀.toOpen.willing.of_settings hs.1.settings) htext
    have hrun := hs.1.runService he hm₀ hts (row_getElem? before after hop)
    dsimp only
    rw [if_pos hgo]
    exact ⟨hrun, hs.2⟩
  · rw [Applied, length_row_snoc, length_row_snoc, Tweak.serviced_of_clear h.2]
    exact h.1

end

/-- **Applying a tweak** after the tweaks before it. -/
theorem apply_gathers (he : e.Bare) (hm₀ : m₀.Regular) (hts : Restorables (before ++ t :: after))
    (h : Applied (before ++ t :: after) m₀ before s.core) :
    ∃ r s', (e.apply (fun _ => false) t).on s = (.ok r, s') ∧
      Applied (before ++ t :: after) m₀ (before ++ [t]) s'.core := by
  have ht : t ∈ before ++ t :: after := by simp
  obtain ⟨s₁, hcore, hdoes⟩ := Engine.apply_does (fun _ => false) (.inr he.detector)
    (Engine.mayRun_of_elevated he.elevated _)
    (runSteps_bare (hts.restorable t ht).toPlain (hts.scripts t ht) (hts.files t ht) e) s
  obtain ⟨r, s₂, hrun, hend⟩ := applyRun_on_none (t := t) (s := s₁)
    ((applyRegistry_leads he.faithful hm₀ hts).append (applyServices_leads he.faithful hm₀ hts))
    (hcore ▸ h) (hcore ▸ h.store) (fun _ h => h.store) fun _ h => h.store
  rw [hrun] at hdoes
  obtain ⟨r', s', hcall, hcore', -, -⟩ := hdoes
  exact ⟨r', s', hcall, hcore' ▸ hend.elim And.right And.right⟩

/-! ## Reverting -/

/-- Some operations of two tweaks are about one registry value or one service. -/
def Tweak.Shares (t t' : Tweak) : Prop :=
  (∃ x i j, t.cellAt i = some x ∧ t'.cellAt j = some x) ∨
    ∃ n i j, t.serviceAt i = some n ∧ t'.serviceAt j = some n

/-- Of two tweaks of `ts` that share something the later one comes first in `us`. -/
def Unwinds (ts us : List Tweak) : Prop :=
  ∀ t t', [t, t'].Sublist ts → t.Shares t' → [t', t].Sublist us

theorem unwinds_reverse (ts : List Tweak) : Unwinds ts ts.reverse :=
  fun _ _ h _ => h.reverse

/-- Tweaks that share nothing may be taken in any order. -/
theorem unwinds_of_apart (h : ts.Pairwise fun t t' => ¬t.Shares t') : Unwinds ts us :=
  fun _ _ hsub hshares => absurd hshares (List.pairwise_iff_forall_sublist.mp h hsub)

/-- What comes before an element that stands in a list only once. -/
theorem mem_of_sublist_append {α : Type} {xs ys : List α} {a b : α} (h : (xs ++ b :: ys).Nodup)
    (hsub : [a, b].Sublist (xs ++ b :: ys)) : a ∈ xs := by
  have hys : b ∉ ys := fun hb => (List.nodup_cons.mp (List.nodup_append.mp h).2.1).1 hb
  obtain ⟨l₁, l₂, heq, h₁, h₂⟩ := List.sublist_append_iff.mp hsub
  cases l₁ with
  | cons x l₁ =>
    obtain ⟨rfl, -⟩ := List.cons.inj heq
    exact h₁.subset List.mem_cons_self
  | nil =>
    rw [List.nil_append] at heq
    subst heq
    cases h₂ with
    | cons _ h => exact absurd (h.subset (by simp)) hys
    | cons_cons _ h => exact absurd (h.subset List.mem_cons_self) hys

/-- The tweaks that are done with are without notes. -/
structure Returned (ts : List Tweak) (m₀ : Machine) (done : List Tweak) (c : Core Machine) : Prop
    extends Held ts m₀ c where
  gone : ∀ t ∈ done, Unnoted t c

/-- Besides, the service operations of a tweak from a position on are without a note. -/
structure ServicesReturned (ts : List Tweak) (m₀ : Machine) (done : List Tweak) (u : Tweak) (i : Nat)
    (c : Core Machine) : Prop extends Returned ts m₀ done c where
  services_gone : ∀ j ≥ i, c.memory.serviceNote u.id j = none

/-- Besides, all service operations of a tweak, and its registry operations from a position
on, are without a note. -/
structure RegistryReturned (ts : List Tweak) (m₀ : Machine) (done : List Tweak) (u : Tweak) (i : Nat)
    (c : Core Machine) : Prop extends Returned ts m₀ done c where
  services_gone : ∀ j, c.memory.serviceNote u.id j = none
  registry_gone : ∀ j ≥ i, c.memory.registryNote u.id j = none

/-- What is left when a note is struck out was there before. -/
theorem ne_none_of_erase {C : Type} {slot slot' : Slot} {notes : Captures C}
    (h : Assoc.get? slot' (Assoc.erase slot notes) ≠ none) : Assoc.get? slot' notes ≠ none := by
  rw [Assoc.get?_erase] at h
  split at h
  · exact absurd rfl h
  · exact h

theorem erase_eq_none {C : Type} {slot slot' : Slot} {notes : Captures C}
    (h : Assoc.get? slot' notes = none) : Assoc.get? slot' (Assoc.erase slot notes) = none := by
  rw [Assoc.get?_erase, h, ite_self]

section

variable (he : e.Faithful) (hm₀ : m₀.Regular) (hts : Restorables ts) (hus : Unwinds ts us)
  (hnodup : us.Nodup) (hsplit : us = done ++ u :: rest) (hu : u ∈ ts)
include hus hnodup hsplit

/-- What a later tweak shares with the one that is reverted is without notes. -/
theorem later_gone {ω C : Type} {op : ω} {y : Numbered ω} {notes : Captures C}
    (hgone : ∀ t ∈ done, ∀ i, Assoc.get? ⟨t.id, .apply, i⟩ notes = none)
    (hsame : ∀ j ≥ i + 1, Assoc.get? ⟨u.id, .apply, j⟩ notes = none)
    (hbefore : (Numbered.mk u i op).Before ts y) (hshares : u.Shares y.tweak) :
    Assoc.get? y.slot notes = none := by
  subst hsplit
  rcases hbefore with ⟨he, hlt⟩ | hsub
  · rw [Numbered.slot, ← show u = y.tweak from he]
    exact hsame _ hlt
  · exact hgone y.tweak (mem_of_sublist_append hnodup (hus _ _ hsub hshares)) _

include he hm₀ hts hu

/-- Restoring a service operation when those after it are restored. -/
theorem restoreService_returns {op : ServiceOperation} {W : Core Machine → Prop}
    (hi : u.operations.services[i]? = some op) (label : Datum) :
    (⟨label, e.restoreService ⟨u.id, .apply, i⟩ op⟩ : Step Machine).Takes
      (ServicesReturned ts m₀ done u (i + 1)) (ServicesReturned ts m₀ done u i) W := by
  intro s hs
  cases hc : s.core.memory.serviceNote u.id i with
  | none =>
    dsimp only
    rw [Engine.restoreService_on_none ⟨u.id, .apply, i⟩ hc]
    exact ⟨hs.toReturned, none_from hc hs.services_gone⟩
  | some d =>
    -- the note stands in the row
    have hlt : i < u.serviced.length := hs.serviceNotes u hu i (by rw [hc]; exact nofun)
    have hop : u.serviced[i]? = some op := by
      rw [← hi, List.getElem?_eq_getElem hlt]
      exact (Tweak.serviced_eq_some (List.getElem?_eq_getElem hlt)).symm
    have hmem : ⟨u, i, op⟩ ∈ serviceRow ts := mem_row.mpr ⟨hu, hop⟩
    obtain ⟨k, hk⟩ := List.mem_iff_getElem?.mp hmem
    have hat := serviceAt_eq (joint_services hk)
    have hnote : noteAt (serviceRow ts) s.core.memory.services k = some d := by
      rw [noteAt, hk]
      exact hc
    obtain ⟨x, hx⟩ := hs.services.exists_noted hat (by rw [hnote]; exact nofun)
    obtain ⟨s', m', hs', hm', hcore⟩ := Engine.restoreService_on he ⟨u.id, .apply, i⟩
      (hm₀.toOpen.willing.of_settings hs.settings)
      ((hts.restorable u hu).services op (List.mem_of_getElem? hi)) hc hx
    have now := noteAt_erase hts.ids s.core.memory.services hk
    have hback := hs.services.restore hat hnote hx hm' (fun j hj hjn => ?_)
      ((now k).trans (if_pos rfl)) fun j hj => (now j).trans (if_neg hj)
    · dsimp only
      rw [hs', hcore]
      exact ⟨⟨⟨hm'.settings.trans hs.settings, hs.store, hs.registry.of_keys hm'.keys, hback,
        hs.registryNotes, fun t ht j hj => hs.serviceNotes t ht j (ne_none_of_erase hj)⟩,
        fun t ht => ⟨(hs.gone t ht).1, fun j => erase_eq_none ((hs.gone t ht).2 j)⟩⟩,
        none_from ((Assoc.get?_erase ..).trans (if_pos rfl))
          fun j hj => erase_eq_none (hs.services_gone j hj)⟩
    · cases hy : (serviceRow ts)[j]? with
      | none => rw [noteAt, hy]; rfl
      | some y =>
        rw [noteAt, hy]
        refine later_gone hus hnodup hsplit (fun t ht => (hs.gone t ht).2) hs.services_gone
          (before_of_lt hk hy hj) (.inr ?_)
        exact ⟨_, i, y.index, serviceAt_eq hi, (joint_serviceAt hy).symm.trans hjn⟩

/-- Restoring a registry operation when those after it are restored. -/
theorem restoreRegistry_returns {op : RegistryOperation} {W : Core Machine → Prop}
    (hi : u.operations.registry[i]? = some op) (label : Datum) :
    (⟨label, e.restoreRegistry ⟨u.id, .apply, i⟩ op⟩ : Step Machine).Takes
      (RegistryReturned ts m₀ done u (i + 1)) (RegistryReturned ts m₀ done u i) W := by
  intro s hs
  cases hc : s.core.memory.registryNote u.id i with
  | none =>
    dsimp only
    rw [Engine.restoreRegistry_on_none ⟨u.id, .apply, i⟩ hc]
    exact ⟨hs.toReturned, hs.services_gone, none_from hc hs.registry_gone⟩
  | some d =>
    -- the note stands in the row
    have hlt : i < u.attempted.length := hs.registryNotes u hu i (by rw [hc]; exact nofun)
    have hop := Tweak.attempted_getElem? hi (Tweak.lt_length_attempted.mp hlt).2
    have hmem : ⟨u, i, op.tried⟩ ∈ registryRow ts := mem_row.mpr ⟨hu, hop⟩
    obtain ⟨k, hk⟩ := List.mem_iff_getElem?.mp hmem
    have hnote : noteAt (registryRow ts) s.core.memory.registry k = some d := by
      rw [noteAt, hk]
      exact hc
    obtain ⟨s', m', hs', hm', hcore⟩ := Engine.restoreRegistry_on he ⟨u.id, .apply, i⟩
      (hm₀.toOpen.willing.of_settings hs.settings)
      ((hts.restorable u hu).textual op (List.mem_of_getElem? hi)) hc
    obtain ⟨hsettings, hservices⟩ := hm'.frame
    have now := noteAt_erase hts.ids s.core.memory.registry hk
    have hback := hs.registry.restore hts.plain hm₀.rooted (joint_registry hk) hnote
      (RegistryOperation.tried_restored hm') (fun j x hj hjx hkx => ?_)
      ((now k).trans (if_pos rfl)) fun j hj => (now j).trans (if_neg hj)
    · dsimp only
      rw [hs', hcore]
      exact ⟨⟨⟨hsettings.trans hs.settings, hs.store, hback, hs.services.of_services hservices,
        fun t ht j hj => hs.registryNotes t ht j (ne_none_of_erase hj), hs.serviceNotes⟩,
        fun t ht => ⟨fun j => erase_eq_none ((hs.gone t ht).1 j), (hs.gone t ht).2⟩⟩,
        hs.services_gone, none_from ((Assoc.get?_erase ..).trans (if_pos rfl))
          fun j hj => erase_eq_none (hs.registry_gone j hj)⟩
    · cases hy : (registryRow ts)[j]? with
      | none => rw [noteAt, hy]; rfl
      | some y =>
        rw [noteAt, hy]
        refine later_gone hus hnodup hsplit (fun t ht => (hs.gone t ht).1) hs.registry_gone
          (before_of_lt hk hy hj) (.inl ?_)
        exact ⟨x, i, y.index, (joint_cellAt hk).symm.trans hkx, (joint_cellAt hy).symm.trans hjx⟩

end

/-- **Reverting a tweak** when those before it are reverted, in an order in which no tweak is
reverted before a later one that it shares something with. -/
theorem revert_returns (he : e.Bare) (hm₀ : m₀.Regular) (hts : Restorables ts)
    (hus : Unwinds ts (done ++ u :: rest)) (hnodup : (done ++ u :: rest).Nodup) (hu : u ∈ ts)
    (h : Returned ts m₀ done s.core) :
    ∃ r s', (e.revert (fun _ => false) u).on s = (.ok r, s') ∧
      Returned ts m₀ (done ++ [u]) s'.core := by
  have hr := hts.restorable u hu
  obtain ⟨s₁, hcore, hdoes⟩ := Engine.revert_does (fun _ => false) he.elevated hr.reversible
    hr.withoutUndo (restoreSteps_bare hr.toPlain (hts.scripts u hu) (hts.files u hu) e) s
  have hservices : Engine.Leads (fun _ => false)
      (Engine.stepsFor u.id .apply u.operations.services fun slot op =>
        ⟨Engine.undoing "Restore" op.describe, e.restoreService slot op⟩).reverse
      (ServicesReturned ts m₀ done u u.operations.services.length)
      (ServicesReturned ts m₀ done u 0) (fun _ => False) :=
    Engine.leads_downward (fun i s hc _ => absurd hc Bool.false_ne_true) fun i op hi =>
      restoreService_returns he.faithful hm₀ hts hus hnodup rfl hu hi _
  have hregistry : Engine.Leads (fun _ => false)
      (Engine.stepsFor u.id .apply u.operations.registry fun slot op =>
        ⟨Engine.undoing "Restore" op.describe, e.restoreRegistry slot op⟩).reverse
      (RegistryReturned ts m₀ done u u.operations.registry.length)
      (RegistryReturned ts m₀ done u 0) (fun _ => False) :=
    Engine.leads_downward (fun i s hc _ => absurd hc Bool.false_ne_true) fun i op hi =>
      restoreRegistry_returns he.faithful hm₀ hts hus hnodup rfl hu hi _
  have hsteps := (hservices.imp (fun c (h : Returned ts m₀ done c) => ⟨h, fun j hj => ?_⟩)
    fun c h => h).append (hregistry.imp
      (fun c h => ⟨h.toReturned, fun j => h.services_gone j (Nat.zero_le j), fun j hj => ?_⟩)
      fun c h => (⟨h.toHeld, fun t ht => ?_⟩ : Returned ts m₀ (done ++ [u]) c))
  · obtain ⟨r, s₂, hrun, hend⟩ := revertRun_on_none (t := u) (s := s₁) hsteps (hcore ▸ h)
      (hcore ▸ h.store) (fun _ h => h.store) fun _ h => h.elim
    rw [hrun] at hdoes
    obtain ⟨r', s', hcall, hcore', -, -⟩ := hdoes
    exact ⟨r', s', hcall, hcore' ▸ hend.elim And.right fun h => h.2.elim⟩
  · by_contra hn
    have hlt := h.serviceNotes u hu j hn
    have hop := Tweak.serviced_eq_some (List.getElem?_eq_getElem hlt)
    exact absurd (List.getElem?_eq_some_iff.mp hop).1 (Nat.not_lt.mpr hj)
  · by_contra hn
    exact absurd (Tweak.lt_length_attempted.mp (h.registryNotes u hu j hn)).1 (Nat.not_lt.mpr hj)
  · rcases List.mem_append.mp ht with ht | ht
    · exact h.gone t ht
    · obtain rfl := List.mem_singleton.mp ht
      exact ⟨fun j => h.registry_gone j (Nat.zero_le j), h.services_gone⟩

end TweakEngine
