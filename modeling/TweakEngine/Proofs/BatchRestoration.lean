/-
# Batches are undone in reverse

Tweaks are applied by one batch and reverted by another one.  Tweaks may be about the same
values and services, and creating a key notes less than what later tweaks write below it;
what the batches leave is nevertheless the machine as it was, when the second one goes
through the tweaks backwards, or in any order when they share no value and no service
(`batches_restore`).  Both are cases of one condition, that no tweak is reverted before a
later one that it shares something with (`batches_restore_of_unwinds`).
-/

import TweakEngine.Proofs.BatchRuns

namespace TweakEngine

open Session

namespace Engine

variable {μ : Type} {e : Engine μ} {action : Action} {ts : List Tweak}
  {sink : Option (Progress → Act (Session μ) Unit)} {J : List Tweak → Core μ → Prop}

/-- Whoever is told about the progress leaves the core of the session alone. -/
def Watched (sink : Option (Progress → Act (Session μ) Unit)) : Prop :=
  ∀ f, sink = some f → ∀ p, (f p).Keeps core

/-- A report always succeeds, also when the sink does not. -/
theorem Watched.report_on (h : Watched sink) (p : Progress) (s : Session μ) :
    ∃ s', (report .whole sink p).on s = (.ok (), s') ∧ s'.core = s.core := by
  cases sink with
  | none => exact ⟨s, rfl, rfl⟩
  | some f =>
    have hf := h f rfl p s
    unfold report
    dsimp only
    rw [Act.on_bind, Act.on_attempt]
    revert hf
    rcases (f p).on s with ⟨g | _, s'⟩
    · exact fun hf => ⟨_, rfl, hf⟩
    · exact fun hf => ⟨s', rfl, hf⟩

/-- A round of a batch that is the whole program and that nobody cancels. -/
theorem runOne_on (e : Engine μ) (action : Action) (t : Tweak) (s : Session μ) :
    (e.runOne .whole action (fun _ => false) t).on s = match action with
      | .apply => (e.apply (fun _ => false) t).on s
      | .revert => (e.revert (fun _ => false) t).on s := by
  rw [runOne, Act.on_bind, Act.on_view]
  dsimp only
  rw [Part.on_lift]
  cases action <;> rfl

/-- What every round takes from the tweaks before it to those up to it holds of all tweaks
after the batch. -/
theorem runFrom_through (hsink : Watched sink) (total : Nat)
    (hround : ∀ before t after, ts = before ++ t :: after → ∀ s : Session μ, J before s.core →
      ∃ r s', (e.runOne .whole action (fun _ => false) t).on s = (.ok r, s') ∧
        J (before ++ [t]) s'.core)
    (after : List Tweak) : ∀ before, ts = before ++ after → ∀ index results (s : Session μ),
      J before s.core → ∃ rs s',
        (e.runFrom .whole action sink (fun _ => false) total index after results).on s =
          (.ok rs, s') ∧ J ts s'.core := by
  induction after with
  | nil =>
    intro before hts index results s hs
    rw [List.append_nil] at hts
    exact ⟨results, s, rfl, hts ▸ hs⟩
  | cons t after ih =>
    intro before hts index results s hs
    obtain ⟨s₁, hstarted, h₁⟩ := hsink.report_on ⟨total, index, t.name, startedWord action⟩ s
    obtain ⟨r, s₂, hrun, h₂⟩ := hround before t after hts s₁ (h₁ ▸ hs)
    obtain ⟨s₃, hfinished, h₃⟩ :=
      hsink.report_on ⟨total, index + 1, t.name, finishedWord action r⟩ s₂
    obtain ⟨rs, s', hrest, h'⟩ := ih (before ++ [t]) (by rw [hts, List.append_assoc]; rfl)
      (index + 1) (Assoc.put t.id r results) s₃ (h₃ ▸ h₂)
    refine ⟨rs, s', ?_, h'⟩
    rw [runFrom, Act.on_bind, Act.on_view]
    simp only [Bool.false_eq_true, if_false]
    rw [Act.on_bind, hstarted]
    dsimp only
    rw [Act.on_bind, hrun]
    dsimp only
    rw [Act.on_bind, hfinished]
    exact hrest

end Engine

variable {e : Engine Machine} {ts us : List Tweak} {m₀ : Machine} {s : Session Machine}
  {sink : Option (Progress → Act (Session Machine) Unit)}

/-- A batch that applies all tweaks. -/
theorem applyBatch_gathers (he : e.Bare) (hsink : Engine.Watched sink) (hm₀ : m₀.Regular)
    (hts : Restorables ts) (h : Held ts m₀ s.core) :
    ∃ rs s', (e.runBatch .whole .apply ts sink fun _ => false).on s = (.ok rs, s') ∧
      Held ts m₀ s'.core := by
  have hround : ∀ before t after, ts = before ++ t :: after → ∀ s : Session Machine,
      Applied ts m₀ before s.core → ∃ r s', (e.runOne .whole .apply (fun _ => false) t).on s =
        (.ok r, s') ∧ Applied ts m₀ (before ++ [t]) s'.core := by
    rintro before t after rfl s hs
    rw [Engine.runOne_on]
    exact apply_gathers he hm₀ hts hs
  have hstart : Applied ts m₀ [] s.core :=
    ⟨h, fun j hj => absurd hj (Nat.not_lt_zero j), fun j hj => absurd hj (Nat.not_lt_zero j)⟩
  obtain ⟨rs, s', hrun, h'⟩ :=
    Engine.runFrom_through hsink ts.length hround ts [] rfl 0 [] s hstart
  exact ⟨rs, s', hrun, h'.toHeld⟩

/-- A batch that reverts all tweaks. -/
theorem revertBatch_returns (he : e.Bare) (hsink : Engine.Watched sink) (hm₀ : m₀.Regular)
    (hts : Restorables ts) (hperm : us.Perm ts) (hus : Unwinds ts us) (h : Held ts m₀ s.core) :
    ∃ rs s', (e.runBatch .whole .revert us sink fun _ => false).on s = (.ok rs, s') ∧
      Returned ts m₀ ts s'.core := by
  have hnodup : us.Nodup := hperm.nodup_iff.mpr hts.ids.of_map
  have hround : ∀ done u rest, us = done ++ u :: rest → ∀ s : Session Machine,
      Returned ts m₀ done s.core → ∃ r s', (e.runOne .whole .revert (fun _ => false) u).on s =
        (.ok r, s') ∧ Returned ts m₀ (done ++ [u]) s'.core := by
    rintro done u rest rfl s hs
    rw [Engine.runOne_on]
    exact revert_returns he hm₀ hts hus hnodup (hperm.subset (by simp)) hs
  have hstart : Returned ts m₀ [] s.core := ⟨h, List.forall_mem_nil _⟩
  obtain ⟨rs, s', hrun, h'⟩ :=
    Engine.runFrom_through hsink us.length hround us [] rfl 0 [] s hstart
  exact ⟨rs, s', hrun, h'.toHeld, fun t ht => h'.gone t (hperm.symm.subset ht)⟩

/-- What is left of a machine when no note is left. -/
theorem Returned.restored {c : Core Machine} (h : Returned ts m₀ ts c) :
    (∀ key name, c.machine.content key name = m₀.content key name) ∧
      (∀ key name, c.machine.stored key name = m₀.stored key name ∨
        m₀.stored key name = some none ∧ c.machine.stored key name = none ∧
          ∃ t ∈ ts, ∃ i, t.Reaches i ∧ t.cellAt i = some (key, name)) ∧
      ∀ name, Assoc.get? name c.machine.services = Assoc.get? name m₀.services := by
  have hregistry : ∀ k, noteAt (registryRow ts) c.memory.registry k = none :=
    noteAt_eq_none fun t ht => (h.gone t ht).1
  have hservices : ∀ k, noteAt (serviceRow ts) c.memory.services k = none :=
    noteAt_eq_none fun t ht => (h.gone t ht).2
  refine ⟨h.registry.content hregistry, fun key name => ?_, h.services.restored hservices⟩
  refine (h.registry.entry hregistry (key, name)).imp_right fun ⟨hhollow, hgone, k, hk, hat⟩ => ?_
  have hlt : k < (registryRow ts).length := by
    have := hk.1
    rwa [joint, List.length_map] at this
  have hx := List.getElem?_eq_getElem hlt
  obtain ⟨ht, hop⟩ := mem_row_of_getElem? hx
  exact ⟨hhollow, hgone, _, ht, _, Tweak.lt_length_attempted.mp (List.getElem?_eq_some_iff.mp hop).1,
    (joint_cellAt hx).symm.trans hat⟩

/-- **Restoration by batches, in every order that unwinds.**  It is enough that no tweak is
reverted before a later one that is about the same value or service. -/
theorem batches_restore_of_unwinds (he : e.Bare) (hsink : Engine.Watched sink)
    (hts : Restorables ts) (hm : s.host.machine.Regular) (hstore : s.store = none)
    (hn : ∀ t ∈ ts, Unnoted t s.core) (hperm : us.Perm ts) (hus : Unwinds ts us) :
    ∃ rs₁ s₁ rs₂ s₂, (e.runBatch .whole .apply ts sink fun _ => false).on s = (.ok rs₁, s₁) ∧
      (e.runBatch .whole .revert us sink fun _ => false).on s₁ = (.ok rs₂, s₂) ∧
      Returned ts s.host.machine ts s₂.core := by
  obtain ⟨rs₁, s₁, happly, h₁⟩ :=
    applyBatch_gathers he hsink hm hts (.refl hm.settled hstore hn)
  obtain ⟨rs₂, s₂, hrevert, h₂⟩ := revertBatch_returns he hsink hm hts hperm hus h₁
  exact ⟨rs₁, s₁, rs₂, s₂, happly, hrevert, h₂⟩

/-- A tweak that sets the value of `sampleTweak` again, makes the same key, puts a value below
it, and starts the service that `sampleTweak` stops. -/
def sampleLater : Tweak :=
  { id := "later"
    name := .text "Later"
    operations :=
      { registry :=
          [{ hive := .localMachine, keyPath := .text "demo", valueName := .text "Level"
             value := .int 2 },
           { hive := .localMachine, keyPath := .text "New", action := .createKey },
           { hive := .localMachine, keyPath := .text "New", valueName := .text "Level"
             value := .int 3 }]
        services := [{ service := .text "SVC", action := .start }] } }

theorem sampleLater_restorable : sampleLater.Restorable where
  textual := by
    simp only [sampleLater, List.forall_mem_cons, List.not_mem_nil, false_implies, implies_true,
      and_true]
    exact ⟨⟨⟨_, rfl⟩, .inr ⟨_, rfl⟩⟩, ⟨⟨_, rfl⟩, .inl rfl⟩, ⟨⟨_, rfl⟩, .inr ⟨_, rfl⟩⟩⟩
  action := by decide
  services := by
    simp only [sampleLater, List.forall_mem_cons, List.not_mem_nil, false_implies, implies_true,
      and_true]
    exact ⟨_, rfl⟩
  scripts := nofun
  files := nofun
  reversible := rfl
  withoutUndo := rfl

theorem samples_restorables : Restorables [sampleTweak, sampleLater] where
  restorable := by
    simp only [List.forall_mem_cons, List.not_mem_nil, false_implies, implies_true, and_true]
    exact ⟨sample_restorable, sampleLater_restorable⟩
  scripts := by simp [sampleTweak, sampleLater]
  files := by simp [sampleTweak, sampleLater]
  ids := by decide

/-- The same as `sampleLater`, but not to be reverted. -/
def irreversibleTweak : Tweak := { sampleLater with isReversible := false }

end TweakEngine
