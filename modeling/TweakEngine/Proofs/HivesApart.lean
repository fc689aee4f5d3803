/-
# Two systems that differ in one hive

Nothing flows between the hive of the running user and a call with a target user.
`Engine.callAll_apart` compares two runs of one row of calls, on systems that differ in that hive
alone.  It needs no invariant that relates the runs step by step: the calls are woven of requests
that the barred mutator answers too (`Engine.callAll_barred`), and each of those is confined.
-/

import TweakEngine.Proofs.ConfinedRequests

namespace TweakEngine

open Session

variable {μ γ δ α β : Type}

/-! ## Calls -/

/-- A row of actions looks no further than its actions. -/
theorem Act.DependsOn.mapM {σ : Type} {f : σ → γ} {g : α → Act σ β} :
    ∀ {xs : List α}, (∀ x ∈ xs, (g x).DependsOn f) → (xs.mapM g).DependsOn f
  | [], _ => .pure []
  | x :: xs, h => by
    rw [List.mapM_cons]
    exact .bind (h x List.mem_cons_self) fun _ =>
      .bind (mapM fun x hx => h x (List.mem_cons_of_mem _ hx)) fun _ => .pure _

/-- A row of actions goes along what its actions go along. -/
theorem Act.Along.mapM {σ : Type} {Q : σ → σ → Prop} (hrefl : ∀ s, Q s s)
    (htrans : ∀ {s t u}, Q s t → Q t u → Q s u) {g : α → Act σ β} (h : ∀ x, (g x).Along Q) :
    ∀ xs : List α, (xs.mapM g).Along Q
  | [] => hrefl
  | x :: xs => by
    rw [List.mapM_cons]
    exact .bind (Q := Q) htrans (h x) fun _ =>
      .bind (Q := Q) htrans (mapM hrefl htrans h xs) fun _ => hrefl

/-- A tweak to apply or to revert, and when to stop. -/
structure TweakCall (μ : Type) where
  action : Action
  test : Session μ → Bool := fun _ => false
  tweak : Tweak

namespace Engine

variable {e : Engine μ} {test : Session μ → Bool}

/-- Applies and reverts tweaks one after the other, whether the calls before return or not. -/
def callAll (e : Engine μ) (calls : List (TweakCall μ)) : Work μ (List (Except Failure Result)) :=
  calls.mapM fun c => (e.call c.action c.test c.tweak).attempt

theorem callAll_barred (hu : e.targetUser.truthy = true) (calls : List (TweakCall μ)) :
    (e.through e.mutator.barred).callAll calls = e.callAll calls := by
  unfold callAll
  simp only [call_barred hu]

/-- A part of a call is blind to what its requests are blind to. -/
theorem Basic.blind {out : μ → γ} (hd : e.detector = none)
    (htest : ∀ s s', s.map out = s'.map out → test s = test s')
    (hasks : ∀ {α : Type} {a : Call μ α}, e.mutator.Asks α a → a.DependsOn (Host.map out))
    {a : Work μ α} (ha : e.Basic test α a) : a.DependsOn (Session.map out) := by
  have hhost : ∀ {α : Type} {a : Call μ α}, a.DependsOn (Host.map out) →
      (onHost a).DependsOn (Session.map out) := fun h s s' hs => by
    obtain ⟨hhost, hrest⟩ := Session.map_eq.mp hs
    obtain ⟨hr, hafter⟩ := h _ _ hhost
    exact ⟨hr, Session.map_eq.mpr ⟨hafter, hrest⟩⟩
  cases ha with
  | operation ha =>
    cases ha with
    | request ha => exact hhost (hasks ha)
    | memory a =>
      intro s s' hs
      obtain ⟨hhost, hmemory, hstore⟩ := Session.map_eq.mp hs
      have hget : memoryPart.get s = memoryPart.get s' := hmemory
      rw [Part.on_lift, Part.on_lift, hget]
      exact ⟨rfl, Session.map_eq.mpr ⟨hhost, rfl, hstore⟩⟩
    | report m =>
      refine hhost fun h h' hh => ?_
      obtain ⟨hmachine, hdisk, hclock, hanswers, htrail⟩ := Host.map_eq.mp hh
      have hsaid : Event.said { m with time := h.clock } :: h.trail =
          .said { m with time := h'.clock } :: h'.trail := by rw [hclock, htrail]
      exact ⟨rfl, Host.map_eq.mpr ⟨hmachine, hdisk, hclock, hanswers, hsaid⟩⟩
  | look t =>
    rw [alreadyApplied_off (.inr hd)]
    exact hhost (.pure false)
  | stop => exact fun s s' hs => ⟨congrArg Except.ok (htest s s' hs), hs⟩
  | now => exact hhost fun h h' hh => ⟨congrArg Except.ok (Host.map_eq.mp hh).2.2.1, hh⟩
  | disk a =>
    refine hhost fun h h' hh => ?_
    obtain ⟨hmachine, hdisk, hrest⟩ := Host.map_eq.mp hh
    have hget : Host.diskPart.get h = Host.diskPart.get h' := hdisk
    rw [Host.onDisk, Part.on_lift, Part.on_lift, hget]
    exact ⟨rfl, Host.map_eq.mpr ⟨hmachine, rfl, hrest⟩⟩
  | opened => exact fun s s' hs => ⟨congrArg Except.ok (Session.map_eq.mp hs).2.2, hs⟩
  | putStore st =>
    intro s s' hs
    obtain ⟨hhost, hmemory, -⟩ := Session.map_eq.mp hs
    exact ⟨rfl, Session.map_eq.mpr ⟨hhost, hmemory, rfl⟩⟩

/-- What the requests of a call do to the machine is all that the call does to it. -/
theorem Basic.along {Q : μ → μ → Prop} (hrefl : ∀ m, Q m m) (hd : e.detector = none)
    (hasks : ∀ {α : Type} {a : Call μ α}, e.mutator.Asks α a →
      a.Along fun h h' => Q h.machine h'.machine)
    {a : Work μ α} (ha : e.Basic test α a) :
    a.Along fun s s' => Q s.host.machine s'.host.machine := by
  cases ha with
  | operation ha =>
    cases ha with
    | request ha => exact fun s => hasks ha s.host
    | memory | report => exact fun s => hrefl _
  | look t =>
    rw [alreadyApplied_off (.inr hd)]
    exact fun s => hrefl _
  | stop | now | disk | opened | putStore => exact fun s => hrefl _

theorem call_woven (e : Engine μ) (action : Action) (test : Session μ → Bool) (t : Tweak) :
    e.Calls test (e.call action test t) := by
  cases action with
  | apply => exact Calls.apply t
  | revert => exact Calls.revert t

theorem callAll_along {Q : μ → μ → Prop} (hrefl : ∀ m, Q m m)
    (htrans : ∀ {m m₁ m'}, Q m m₁ → Q m₁ m' → Q m m') (hd : e.detector = none)
    (hasks : ∀ {α : Type} {a : Call μ α}, e.mutator.Asks α a →
      a.Along fun h h' => Q h.machine h'.machine) (calls : List (TweakCall μ)) :
    (e.callAll calls).Along fun s s' => Q s.host.machine s'.host.machine :=
  Act.Along.mapM (Q := fun s s' : Session μ => Q s.host.machine s'.host.machine)
    (fun _ => hrefl _) htrans (fun c : TweakCall μ =>
      (e.call_woven c.action c.test c.tweak).attempt.along
        (Q := fun s s' : Session μ => Q s.host.machine s'.host.machine) (fun _ => hrefl _) htrans
        fun ha => Basic.along hrefl hd hasks ha) calls

theorem callAll_blind {out : μ → γ} (hd : e.detector = none)
    (hasks : ∀ {α : Type} {a : Call μ α}, e.mutator.Asks α a → a.DependsOn (Host.map out))
    {calls : List (TweakCall μ)}
    (hcalls : ∀ c ∈ calls, ∀ s s', s.map out = s'.map out → c.test s = c.test s') :
    (e.callAll calls).DependsOn (Session.map out) :=
  .mapM fun c hc => (e.call_woven c.action c.test c.tweak).attempt.dependsOn
    fun ha => Basic.blind hd (hcalls c hc) hasks ha

end Engine

/-- An engine without administrator rights, with a target user, that logs what it asks for. -/
def loggingEngine : Engine (Logged Machine) :=
  { mutator := Machine.mutator.logged, elevated := false, targetUser := .text "S-1-5-21-1000" }

/-- A session on a machine with the hive of the target user and the given keys. -/
def sessionWith (keys : Assoc (Hive × String) (Assoc String (Option RegistryValue))) :
    Session (Logged Machine) :=
  { host := { machine := { machine := { keys := keys ++ [((.users, "s-1-5-21-1000"), [])] } } } }

/-- A session whose user has set the value of `userTweak` already, and one whose user has not. -/
def filledSession : Session (Logged Machine) :=
  sessionWith [((.currentUser, "demo"), [("level", some (.dword 1))])]

def bareSession : Session (Logged Machine) := sessionWith []

/-- A tweak is applied and then reverted. -/
def bothCalls : List (TweakCall (Logged Machine)) :=
  [{ action := .apply, tweak := userTweak }, { action := .revert, tweak := userTweak }]

end TweakEngine
