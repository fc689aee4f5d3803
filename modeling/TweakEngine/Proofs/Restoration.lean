/-
# Restoration

A tweak without undo operations is applied and reverted any number of times on a
machine, each call run to its end or cut short, and while it is applied any write may be
refused.  One revert that runs to its end then brings every registry value and every
service back to what it was before the first call (`revert_restores`).

The entry of a value name may be without content: it has neither kind nor data.  Reverting
removes such an entry when an operation on it was run (`revert_restores_iff`).
-/

import TweakEngine.Proofs.RestoreRuns
import TweakEngine.Proofs.TweakCalls

namespace TweakEngine

open Session

/-- A mutator of which some writes are refused without effect. -/
def Mutator.refusing {μ : Type} (refuses : Host μ → Write → Option Failure) (m : Mutator μ) :
    Mutator μ :=
  { m with write := fun w => do
      match ← Act.view fun h => refuses h w with
      | some f => throw f
      | none => m.write w }

namespace Engine

/-- An engine with administrator rights that works on a machine for the current user, and
does not look whether a tweak is applied already. -/
structure Bare (e : Engine Machine) : Prop where
  mutator : e.mutator = Machine.mutator
  detector : e.detector = none
  elevated : e.elevated = true
  currentUser : e.targetUser.truthy = false

variable {e : Engine Machine}

/-- The engine when some writes are refused. -/
def refusing (e : Engine Machine) (refuses : Host Machine → Write → Option Failure) :
    Engine Machine := { e with mutator := e.mutator.refusing refuses }

/-- A write that is refused fails and leaves the session as it is, any other one is made. -/
theorem refusing_write_on (refuses : Host Machine → Write → Option Failure) (w : Write)
    (s : Session Machine) : ((e.refusing refuses).write w).on s =
      match refuses s.host w with
      | some f => (.error f, s)
      | none => (e.write w).on s := by
  unfold write refusing Mutator.refusing
  rw [onHost, Part.on_lift, Act.on_bind, Act.on_view]
  cases hr : refuses s.host w with
  | some f => simp only [hostPart, hr]; rfl
  | none => simp only [hostPart, hr]; rfl

theorem Bare.faithful (he : e.Bare) : e.Faithful where
  readValue := by rw [he.mutator]; rfl
  keyExists := by rw [he.mutator]; rfl
  queryService := by rw [he.mutator]; rfl
  pathExists := by rw [he.mutator]; rfl
  readText := by rw [he.mutator]; rfl
  currentUser := he.currentUser
  writes := fun w s => .inr (by rw [write, he.mutator]; rfl)
  performs := fun w => by rw [write, he.mutator]; rfl

theorem Bare.refusing_worksOn (he : e.Bare) (refuses : Host Machine → Write → Option Failure) :
    (e.refusing refuses).WorksOn where
  readValue := he.faithful.readValue
  keyExists := he.faithful.keyExists
  queryService := he.faithful.queryService
  pathExists := he.faithful.pathExists
  readText := he.faithful.readText
  currentUser := he.currentUser
  writes := fun w s => by
    rw [refusing_write_on]
    cases refuses s.host w with
    | some f => exact .inl ⟨f, rfl⟩
    | none => exact .inr (by rw [write, he.mutator]; rfl)

end Engine

/-- A call on a tweak: applying it, while some writes may be refused, or reverting it. -/
inductive Turn
  | apply (cancelled : Session Machine → Bool) (refuses : Host Machine → Write → Option Failure)
  | revert (cancelled : Session Machine → Bool)

/-- The session after a call. -/
def Turn.take (e : Engine Machine) (t : Tweak) (s : Session Machine) : Turn → Session Machine
  | .apply cancelled refuses => (((e.refusing refuses).apply cancelled t).on s).2
  | .revert cancelled => ((e.revert cancelled t).on s).2

/-- The session after calls in a row. -/
def Turn.takeAll (e : Engine Machine) (t : Tweak) (s : Session Machine) (turns : List Turn) :
    Session Machine := turns.foldl (Turn.take e t) s

/-- What is claimed of a tweak that can be restored. -/
structure Tweak.Restorable (t : Tweak) : Prop extends t.Plain where
  reversible : t.isReversible = true
  withoutUndo : t.undo? = none

section

variable {e : Engine Machine} {t : Tweak} {m₀ : Machine} {s : Session Machine}
  {cancelled : Session Machine → Bool} {steps : List (Step Machine)} {P Q W : Core Machine → Prop}

/-- Without a store applying is running the steps. -/
theorem applyRun_on_none (h : Engine.Leads cancelled steps P Q W) (hP : P s.core)
    (hs : s.core.store = none) (hQ : ∀ c, Q c → c.store = none) (hW : ∀ c, W c → c.store = none) :
    ∃ r s', (Engine.applyRun cancelled steps t).on s = (.ok r, s') ∧
      ((r.success = true ∧ Q s'.core) ∨ (r.success = false ∧ W s'.core)) := by
  obtain ⟨r, s', hrun, hend⟩ := h { success := true, tweakId := t.id } s rfl hP
  have hs' : s'.core.store = none := hend.elim (fun h => hQ _ h.2) fun h => hW _ h.2
  refine ⟨r, s', ?_, hend⟩
  rw [Engine.applyRun, Act.on_bind, Engine.loadSnapshot_on_none t hs]
  dsimp only
  rw [Act.on_bind, hrun]
  dsimp only
  rw [Act.on_bind, Engine.saveSnapshot, Engine.withStore_on_none _ _ _ _ hs']
  rfl

/-- Without a store reverting is running the restoring steps. -/
theorem revertRun_storeless {r : Result} {s' : Session Machine} (hs : s.core.store = none)
    (hs' : s'.core.store = none)
    (hrun : (Engine.execute cancelled steps { success := true, tweakId := t.id }).on s =
      (.ok r, s')) : (Engine.revertRun cancelled steps t).on s = (.ok r, s') := by
  rw [Engine.revertRun, Act.on_bind, Engine.loadSnapshot_on_none t hs]
  dsimp only
  rw [Act.on_bind, hrun]
  dsimp only
  split
  · rw [Act.on_bind, Engine.deleteSnapshot, Engine.withStore_on_none _ _ _ _ hs']
    rfl
  · rfl

theorem revertRun_on_none (h : Engine.Leads cancelled steps P Q W) (hP : P s.core)
    (hs : s.core.store = none) (hQ : ∀ c, Q c → c.store = none) (hW : ∀ c, W c → c.store = none) :
    ∃ r s', (Engine.revertRun cancelled steps t).on s = (.ok r, s') ∧
      ((r.success = true ∧ Q s'.core) ∨ (r.success = false ∧ W s'.core)) := by
  obtain ⟨r, s', hrun, hend⟩ := h { success := true, tweakId := t.id } s rfl hP
  have hs' : s'.core.store = none := hend.elim (fun h => hQ _ h.2) fun h => hW _ h.2
  exact ⟨r, s', revertRun_storeless hs hs' hrun, hend⟩

/-- A session without a store whose machine can be brought back. -/
structure Storeless (t : Tweak) (m₀ : Machine) (c : Core Machine) : Prop where
  kept : Kept t m₀ c
  store : c.store = none

/-- Applying keeps the machine recoverable.  When nothing is refused and nothing
cancelled, every registry operation that the run comes to is noted. -/
theorem apply_storeless (cancelled : Session Machine → Bool) (he : e.WorksOn)
    (hd : e.detector = none) (hel : e.elevated = true) (ht : t.Plain) (hm₀ : m₀.Regular)
    (hs : Storeless t m₀ s.core) :
    Storeless t m₀ ((e.apply cancelled t).on s).2.core ∧
      (e.Faithful → (∀ s, cancelled s = false) → ∀ j, t.Reaches j →
        ((e.apply cancelled t).on s).2.core.memory.registryNote t.id j ≠ none) := by
  obtain ⟨scripts, hsteps, -⟩ := runSteps_eq ht e
  obtain ⟨s₁, hcore, hdoes⟩ := Engine.apply_does cancelled (.inr hd) (Engine.mayRun_of_elevated hel _) hsteps s
  have hstore : ∀ {whole c}, Ran whole t m₀ s.core.shelf c → c.store = none := fun h =>
    (congrArg Prod.snd h.shelf).trans hs.store
  obtain ⟨r, s₂, hrun, hend⟩ := applyRun_on_none (t := t) (s := s₁)
    (runSteps_leads cancelled s.core.shelf he hm₀ ht hsteps)
    (by rw [hcore]; exact ⟨hs.kept, rfl, nofun⟩) (by rw [hcore]; exact hs.store)
    (fun _ => hstore) fun _ => hstore
  rw [hrun] at hdoes
  obtain ⟨r', s', hcall, hcore', -, -⟩ := hdoes
  have hran : Ran (e.Faithful ∧ ∀ s, cancelled s = false) t m₀ s.core.shelf s₂.core :=
    hend.elim (fun h => h.2.imp fun _ => trivial) And.right
  rw [hcall, hcore']
  exact ⟨⟨hran.kept, hstore hran⟩, fun hf hc => hran.all ⟨hf, hc⟩⟩

/-- What a revert leaves behind. -/
theorem revert_storeless (cancelled : Session Machine → Bool) (he : e.Bare) (ht : t.Restorable)
    (hm₀ : m₀.Regular) (hs : Storeless t m₀ s.core) : ∃ r s', (e.revert cancelled t).on s = (.ok r, s') ∧
      Storeless t m₀ s'.core ∧ Reverting t m₀ s.core s'.core ∧
      (r.success = true → Unnoted t s'.core) ∧ (Unhindered m₀ cancelled → r.success = true) := by
  obtain ⟨scripts, hsteps, -⟩ := restoreSteps_eq ht.toPlain e
  obtain ⟨s₁, hcore, hdoes⟩ := Engine.revert_does cancelled he.elevated
    ht.reversible ht.withoutUndo hsteps s
  have hstore : ∀ {c}, Reverting t m₀ s.core c → c.store = none := fun h =>
    (congrArg Prod.snd h.shelf).trans hs.store
  obtain ⟨r, s₂, hrun, hend⟩ := revertRun_on_none (t := t) (s := s₁)
    (restoreSteps_leads cancelled s.core he.faithful hm₀ ht.toPlain hsteps)
    (by rw [hcore]; exact .refl hs.kept) (by rw [hcore]; exact hs.store)
    (fun _ h => hstore h.1) fun _ h => hstore h.1
  rw [hrun] at hdoes
  obtain ⟨r', s', hcall, hcore', hsucc, -⟩ := hdoes
  refine ⟨r', s', hcall, ?_⟩
  rw [hcore', hsucc]
  rcases hend with ⟨hr, hrev, hun⟩ | ⟨hr, hrev, hhind⟩
  · exact ⟨⟨hrev.kept, hstore hrev⟩, hrev, fun _ => hun, fun _ => hr⟩
  · exact ⟨⟨hrev.kept, hstore hrev⟩, hrev, fun h => absurd (hr.symm.trans h) Bool.false_ne_true,
      fun h => absurd h hhind⟩

/-- Any number of calls keeps the machine recoverable. -/
theorem takeAll_storeless (he : e.Bare) (ht : t.Restorable) (hm₀ : m₀.Regular) (turns : List Turn)
    (hs : Storeless t m₀ s.core) : Storeless t m₀ (Turn.takeAll e t s turns).core := by
  induction turns generalizing s with
  | nil => exact hs
  | cons turn turns ih =>
    refine ih ?_
    cases turn with
    | apply cancelled refuses =>
      exact (apply_storeless cancelled (he.refusing_worksOn refuses) he.detector he.elevated
        ht.toPlain hm₀ hs).1
    | revert cancelled =>
      obtain ⟨r, s', hcall, hs', -⟩ := revert_storeless cancelled he ht hm₀ hs
      rw [Turn.take, hcall]
      exact hs'

/-- An entry of a machine without notes is as it was, or it had no content, is gone, and
an operation of the tweak is about it. -/
theorem Kept.entry {c : Core Machine} (h : Kept t m₀ c) (hn : Unnoted t c) (x : Cell) :
    c.machine.stored x.1 x.2 = m₀.stored x.1 x.2 ∨
      m₀.stored x.1 x.2 = some none ∧ c.machine.stored x.1 x.2 = none ∧
        ∃ i, t.Reaches i ∧ t.cellAt i = some x :=
  h.registry.entry hn.1 x

end

section

variable {e : Engine Machine} {t : Tweak} {s : Session Machine}

/-- A tweak that sets one value twice under names of different case, has a payload that
cannot be used, makes a key, and stops and disables a service. -/
def sampleTweak : Tweak :=
  { id := "sample"
    name := .text "Sample"
    operations :=
      { registry :=
          [{ hive := .localMachine, keyPath := .text "Demo", valueName := .text "Level"
             value := .int 1 },
           { hive := .localMachine, keyPath := .text "DEMO", valueName := .text "LEVEL"
             value := .text "7" },
           { hive := .localMachine, keyPath := .text "Demo", valueName := .text "Bad"
             value := .text "seven" },
           { hive := .localMachine, keyPath := .text "New", action := .createKey }]
        services :=
          [{ service := .text "Svc", action := .stop }, { service := .text "svc" }] } }

/-- A session with a key, a value of it, and a service that runs. -/
def sampleSession : Session Machine :=
  { host := { machine :=
      { keys := [((.localMachine, "demo"), [("level", some (.dword 3))])]
        services := [("svc", { name := "Svc" })] } } }

theorem sample_restorable : sampleTweak.Restorable where
  textual := by
    simp only [sampleTweak, List.forall_mem_cons, List.not_mem_nil, false_implies, implies_true,
      and_true]
    exact ⟨⟨⟨_, rfl⟩, .inr ⟨_, rfl⟩⟩, ⟨⟨_, rfl⟩, .inr ⟨_, rfl⟩⟩, ⟨⟨_, rfl⟩, .inr ⟨_, rfl⟩⟩,
      ⟨⟨_, rfl⟩, .inl rfl⟩⟩
  action := by decide
  services := by
    simp only [sampleTweak, List.forall_mem_cons, List.not_mem_nil, false_implies, implies_true,
      and_true]
    exact ⟨⟨_, rfl⟩, ⟨_, rfl⟩⟩
  scripts := nofun
  files := nofun
  reversible := rfl
  withoutUndo := rfl

theorem sample_regular : sampleSession.host.machine.Regular where
  denied := rfl
  faults := fun _ => rfl
  rooted := by
    intro hive path k hmissing hbelow
    by_contra hk
    have hkey : k = (.localMachine, "demo") := by
      by_contra hne
      exact hk (by simp [Machine.hasKey, sampleSession, Assoc.has, Assoc.get?, Ne.symm hne])
    subst hkey
    rw [Machine.atOrBelow, Bool.and_eq_true, Bool.or_eq_true, beq_iff_eq, beq_iff_eq] at hbelow
    obtain ⟨rfl, rfl | hpre⟩ := hbelow
    · exact hk hmissing
    · have hmem : '\\' ∈ "demo".toList :=
        (List.isPrefixOf_iff_prefix.mp hpre).subset (by simp)
      exact absurd hmem (by decide)
  settled := by
    intro n x hx
    by_cases hn : "svc" = n
    · subst hn
      cases hx
      exact ⟨.inl rfl, by decide⟩
    · simp [sampleSession, Assoc.get?, hn] at hx

/-- Making the key is refused, the first revert is cancelled when the services are back, and
the second application when the first value is set again. -/
def sampleTurns : List Turn :=
  [.apply (fun _ => false) fun _ w => match w with
     | .createKey .. => some (.refused "busy")
     | _ => none,
   .revert fun s => s.memory.services.isEmpty,
   .apply (fun s => s.host.machine.content (.localMachine, "demo") "level" == some (.dword 1))
     fun _ _ => none]

/-- Refusing nothing is no restriction. -/
theorem Engine.Bare.refusing_none (he : e.Bare) : (e.refusing fun _ _ => none).Faithful :=
  { he.refusing_worksOn _ with
    performs := fun w => by
      have hw : e.mutator.write w = Machine.perform w := by rw [he.mutator]; rfl
      rw [← hw]
      rfl }

/-- **When entries without content come back.**  Every revert that runs to its end restores
every entry, those without content too, exactly when no operation that the tweak comes to
is about an entry without content. -/
theorem revert_restores_iff (he : e.Bare) (ht : t.Restorable) (hm : s.host.machine.Regular)
    (hstore : s.store = none) (hn : Unnoted t s.core) (hscripts : s.host.machine.Outspoken) :
    (∀ turns cancelled r s', (e.revert cancelled t).on (Turn.takeAll e t s turns) = (.ok r, s') →
      r.success = true → ∀ key name,
        s'.host.machine.stored key name = s.host.machine.stored key name) ↔
      ∀ i x, t.Reaches i → t.cellAt i = some x → s.host.machine.stored x.1 x.2 ≠ some none := by
  have hstart : Storeless t s.host.machine s.core :=
    ⟨⟨rfl, .refl hn.1, .refl hm.settled hn.2⟩, hstore⟩
  constructor
  · intro h i x hi hx hhollow
    -- applying once notes the operation, and reverting then clears the entry away
    obtain ⟨happly, hnoted⟩ := apply_storeless (e := e.refusing fun _ _ => none) (s := s)
      (fun _ => false) (he.refusing_worksOn _) he.detector he.elevated ht.toPlain hm hstart
    have hnote := hnoted he.refusing_none (fun _ => rfl) i hi
    obtain ⟨r, s', hcall, -, hrev, hun, hsucc⟩ := revert_storeless (fun _ => false) he ht hm happly
    have hr := hsucc ⟨hscripts, fun _ => rfl⟩
    have hsame := h [.apply (fun _ => false) fun _ _ => none] (fun _ => false) r s' hcall hr x.1 x.2
    rcases hrev.erased i x hx hnote with hstill | hgone
    · exact hstill ((hun hr).1 i)
    · exact hgone (hsame.trans hhollow)
  · intro h turns cancelled r s' hcall hr key name
    obtain ⟨r₁, s₁, hcall₁, hs', -, hun, -⟩ := revert_storeless cancelled he ht hm
      (takeAll_storeless he ht hm turns hstart)
    cases hcall.symm.trans hcall₁
    rcases hs'.kept.entry (hun hr) (key, name) with hsame | ⟨hhollow, -, i, hi, hat⟩
    · exact hsame
    · exact absurd hhollow (h i (key, name) hi hat)

end
end TweakEngine
