/-
# Calls that are stopped

A call looks at the token before every operation, and its result tells whether the token was
seen cancelled.  `Ran test ran stopped s s'` says that the operations `ran` were run one after the
other, each of them begun while the token was not cancelled, and that nothing was run once it was
seen cancelled.  Every call is such a run of the first of its steps (`call_conducts`).  A token
that stays cancelled (`Latched`) is therefore cancelled after a call whose result says so
(`Ran.cancelled`).
-/

import TweakEngine.Proofs.WovenActions

namespace TweakEngine

open Session

/-- What an action goes along leads to the state after it. -/
theorem Act.Along.of_on {σ α : Type} {Q : σ → σ → Prop} {a : Act σ α} (h : a.Along Q) {s t : σ}
    {r : Except Failure α} (hs : a.on s = (r, t)) : Q s t := by
  have hQ := h s
  rwa [hs] at hQ

namespace Engine

variable {μ : Type} {e : Engine μ} {test : Session μ → Bool} {t : Tweak}
  {s s' s₁ : Session μ}

/-! ## Operations and the token -/

/-- Nothing that calls consist of takes a cancellation back. -/
def Latched (e : Engine μ) (test : Session μ → Bool) : Prop :=
  ∀ {α : Type} {a : Work μ α}, e.Basic test α a → a.Preserves (test · = true)

theorem Latched.calls (h : e.Latched test) {α : Type} {a : Work μ α} (ha : e.Calls test a) :
    a.Preserves (test · = true) :=
  Act.Woven.along (Q := fun s s' => test s = true → test s' = true) (fun _ => id)
    (fun h h' => h' ∘ h) h ha

/-- The machine and the record of writes are left as they are, and so is a cancellation. -/
structure Quiet (test : Session μ → Bool) (s s' : Session μ) : Prop where
  ledger : ledger s' = ledger s
  stays : test s = true → test s' = true

theorem Quiet.refl (s : Session μ) : Quiet test s s := ⟨rfl, id⟩

theorem Quiet.trans (h : Quiet test s s₁) (h' : Quiet test s₁ s') : Quiet test s s' :=
  ⟨h'.ledger.trans h.ledger, h'.stays ∘ h.stays⟩

theorem Latched.quiet (h : e.Latched test) {α : Type} {a : Work μ α} (ha : e.Calls test a)
    (hkeeps : a.Keeps Engine.ledger) : a.Along (Quiet test) := fun s => ⟨hkeeps s, h.calls ha s⟩

/-- Operations run one after the other.  Before each of them the token was looked at and was not
cancelled, and it is told whether it was seen cancelled in the end.  Besides the operations
nothing happens that counts. -/
inductive Ran (test : Session μ → Bool) : List (Step μ) → Bool → Session μ → Session μ → Prop
  | done {s s' : Session μ} (quiet : Quiet test s s') : Ran test [] false s s'
  | stopped {s s₁ s' : Session μ} (before : Quiet test s s₁) (seen : test s₁ = true)
      (after : Quiet test s₁ s') : Ran test [] true s s'
  | operate {st : Step μ} {steps : List (Step μ)} {stopped : Bool} {s s₁ s' : Session μ}
      (before : Quiet test s s₁) (free : test s₁ = false)
      (rest : Ran test steps stopped (st.run.on s₁).2 s') : Ran test (st :: steps) stopped s s'

namespace Ran

variable {steps : List (Step μ)} {stopped : Bool}

theorem before (h : Quiet test s s₁) (hran : Ran test steps stopped s₁ s') :
    Ran test steps stopped s s' := by
  cases hran with
  | done quiet => exact .done (h.trans quiet)
  | stopped before seen after => exact .stopped (h.trans before) seen after
  | operate before free rest => exact .operate (h.trans before) free rest

theorem after (hran : Ran test steps stopped s s₁) (h : Quiet test s₁ s') :
    Ran test steps stopped s s' := by
  induction hran with
  | done quiet => exact .done (quiet.trans h)
  | stopped before seen after => exact .stopped before seen (after.trans h)
  | operate before free _ ih => exact .operate before free (ih h)

/-- Once the token is seen cancelled it is cancelled in the end. -/
theorem cancelled (hran : Ran test steps true s s') : test s' = true := by
  generalize hstopped : true = stopped at hran
  induction hran with
  | done => cases hstopped
  | stopped _ seen after => exact after.stays seen
  | operate _ _ _ ih => exact ih hstopped

end Ran

theorem Latched.say (hlatch : e.Latched test) (level : Level) (speaker text : String) :
    (say level speaker text : Work μ Unit).Along (Quiet test) :=
  hlatch.quiet (.say level speaker text) (keeps_say _ _ _)

/-- Recording the outcome of a step is quiet. -/
theorem runStep_quiet (hlatch : e.Latched test) (st : Step μ) (r : Result) (s : Session μ) :
    ∃ r' f? s', (runStep st r).on s = (.ok (r', f?), s') ∧ Quiet test (st.run.on s).2 s' ∧
      r'.cancelled = r.cancelled := by
  unfold runStep
  rw [Act.on_bind, Act.on_attempt]
  rcases st.run.on s with ⟨f | note?, s₁⟩
  · dsimp only
    split
    · exact ⟨_, _, _, rfl, hlatch.say _ _ _ s₁, rfl⟩
    · exact ⟨_, _, _, rfl, .refl s₁, rfl⟩
  · cases note? with
    | none => exact ⟨_, _, _, rfl, hlatch.say _ _ _ s₁, rfl⟩
    | some note => exact ⟨_, _, _, rfl, .refl s₁, rfl⟩

/-- A run of steps runs the first of them and tells whether the token was seen cancelled. -/
theorem execute_ran {s s' : Session μ} (hlatch : e.Latched test) {steps : List (Step μ)}
    {r r' : Result} (hr : r.cancelled = false) (h : (execute test steps r).on s = (.ok r', s')) :
    ∃ ran, ran <+: steps ∧ Ran test ran r'.cancelled s s' := by
  induction steps generalizing r s with
  | nil =>
    cases h
    exact ⟨[], List.nil_prefix, hr ▸ .done (.refl _)⟩
  | cons st steps ih =>
    cases htest : test s with
    | true =>
      rw [execute_of_cancelled htest] at h
      obtain ⟨_, s₁, hsay, h⟩ := Act.ok_of_on_bind h
      cases h
      exact ⟨[], List.nil_prefix, .stopped (.refl s) htest ((hlatch.say _ _ _).of_on hsay)⟩
    | false =>
      obtain ⟨r₁, f?, s₁, hstep, hquiet, hr₁⟩ := runStep_quiet hlatch st r s
      rw [execute_of_step htest hstep] at h
      cases f? with
      | none =>
        obtain ⟨ran, hprefix, hran⟩ := ih (hr₁.trans hr) h
        exact ⟨st :: ran, (List.prefix_cons_inj st).mpr hprefix,
          .operate (.refl s) htest (hran.before hquiet)⟩
      | some f =>
        obtain ⟨_, s₂, hreport, h⟩ := Act.ok_of_on_bind h
        have hreported :=
          (hlatch.quiet (.operation (.basic (.report _))) fun _ => rfl).of_on hreport
        cases h
        refine ⟨[st], (List.prefix_cons_inj st).mpr List.nil_prefix, ?_⟩
        rw [hr₁, hr]
        exact .operate (.refl s) htest (.done (hquiet.trans hreported))

/-! ## Calls and the token -/

/-- Applies or reverts a tweak. -/
def call (e : Engine μ) (action : Action) (test : Session μ → Bool) (t : Tweak) : Work μ Result :=
  match action with
  | .apply => e.apply test t
  | .revert => e.revert test t

/-- The steps that a call goes through. -/
def callSteps (e : Engine μ) (action : Action) (t : Tweak) : Except Failure (List (Step μ)) :=
  match action, t.undo? with
  | .apply, _ => e.runSteps t.id .apply t.operations
  | .revert, some ops => e.runSteps t.id .undo ops
  | .revert, none => e.restoreSteps t.id t.operations

/-- The session when an apply has looked whether the tweak is applied already; a revert does not
look. -/
def looked (e : Engine μ) (action : Action) (t : Tweak) (s : Session μ) : Session μ :=
  match action with
  | .apply => ((onHost (e.alreadyApplied t)).on s).2
  | .revert => s

/-- A call runs the first of its steps, or none, and its result tells whether the token was seen
cancelled. -/
def Conducts (e : Engine μ) (action : Action) (test : Session μ → Bool) (t : Tweak) (s : Session μ)
    (r : Result) (s' : Session μ) : Prop :=
  ∃ ran, Ran test ran r.cancelled (e.looked action t s) s' ∧
    (ran = [] ∨ ∃ steps, e.callSteps action t = .ok steps ∧ ran <+: steps)

theorem keeps_deleteSnapshot (t : Tweak) : (deleteSnapshot t : Work μ Unit).Keeps ledger := by
  refine keeps_withStore keeps_say _ _ _ fun store => .discard ?_
  unfold Snapshot.delete
  dsimp only
  split
  · exact .pure _
  · refine .bind (fun _ => rfl) fun _ => .bind (.result _) fun file => .bind (keeps_onDisk _)
      fun there => ?_
    split
    on_goal 1 => refine .bind (keeps_onDisk _) fun _ => ?_
    all_goals
      exact .bind (keeps_onDisk _) fun _ => .bind (keeps_say _ _ _) fun _ => .pure _

section

variable {action : String} {start : Moment} {r r' : Result}

theorem quiet_of_finish (hlatch : e.Latched test) {details : String}
    (h : (finish action t start details r).on s = (.ok r', s')) :
    r'.cancelled = r.cancelled ∧ Quiet test s s' := by
  have hquiet := (hlatch.quiet (.finish action start details r) (keeps_finish _ _ _ _ _)).of_on h
  cases h
  exact ⟨rfl, hquiet⟩

theorem quiet_of_refuse (hlatch : e.Latched test) {f : Failure}
    (h : (refuse action t start f).on s = (.ok r', s')) :
    r'.cancelled = false ∧ Quiet test s s' := by
  obtain ⟨_, s₁, hsay, h⟩ := Act.ok_of_on_bind h
  obtain ⟨hr, hquiet⟩ := quiet_of_finish hlatch h
  exact ⟨hr, ((hlatch.say _ _ _).of_on hsay).trans hquiet⟩

end

theorem apply_conducts (hlatch : e.Latched test) {r : Result}
    (h : (e.apply test t).on s = (.ok r, s')) : e.Conducts .apply test t s r s' := by
  obtain ⟨start, s₁, hstart, h⟩ := Act.ok_of_on_bind h
  cases hstart
  obtain ⟨found, s₁, hlook, h⟩ := Act.ok_of_on_bind h
  have hlooked : e.looked .apply t s = s₁ := congrArg Prod.snd hlook
  unfold Conducts
  rw [hlooked]
  split at h
  · obtain ⟨hr, hquiet⟩ := quiet_of_finish hlatch h
    exact ⟨[], hr ▸ .done hquiet, .inl rfl⟩
  split at h
  · obtain ⟨hr, hquiet⟩ := quiet_of_refuse hlatch h
    exact ⟨[], hr ▸ .done hquiet, .inl rfl⟩
  obtain ⟨_, s₂, hsay, h⟩ := Act.ok_of_on_bind h
  obtain ⟨_, s₃, hload, h⟩ := Act.ok_of_on_bind h
  obtain ⟨steps, s₄, hsteps, h⟩ := Act.ok_of_on_bind h
  obtain ⟨hcall, rfl⟩ := Prod.mk.inj hsteps
  obtain ⟨r₁, s₄, hrun, h⟩ := Act.ok_of_on_bind h
  obtain ⟨_, s₅, hsave, h⟩ := Act.ok_of_on_bind h
  obtain ⟨hr, hfinish⟩ := quiet_of_finish hlatch h
  have hlead := ((hlatch.say _ _ _).of_on hsay).trans
    ((hlatch.quiet (.loadSnapshot t) (keeps_loadSnapshot t)).of_on hload)
  have htail := ((hlatch.quiet (.saveSnapshot t) (keeps_saveSnapshot t)).of_on hsave).trans hfinish
  obtain ⟨ran, hprefix, hran⟩ := execute_ran hlatch rfl hrun
  exact ⟨ran, hr ▸ (hran.before hlead).after htail, .inr ⟨steps, hcall, hprefix⟩⟩

theorem quiet_of_revertSteps (hlatch : e.Latched test) {steps : List (Step μ)}
    (h : (e.revertSteps t).on s = (.ok steps, s')) :
    e.callSteps .revert t = .ok steps ∧ Quiet test s s' := by
  unfold revertSteps at h
  unfold callSteps
  cases hundo : t.undo? with
  | some ops =>
    rw [hundo] at h
    obtain ⟨_, s₁, hsay, h⟩ := Act.ok_of_on_bind h
    obtain ⟨hsteps, rfl⟩ := Prod.mk.inj h
    exact ⟨hsteps, (hlatch.say _ _ _).of_on hsay⟩
  | none =>
    rw [hundo] at h
    obtain ⟨_, s₁, hsay, h⟩ := Act.ok_of_on_bind h
    obtain ⟨_, s₂, hload, h⟩ := Act.ok_of_on_bind h
    obtain ⟨hsteps, rfl⟩ := Prod.mk.inj h
    exact ⟨hsteps, ((hlatch.say _ _ _).of_on hsay).trans
      ((hlatch.quiet (.loadSnapshot t) (keeps_loadSnapshot t)).of_on hload)⟩

theorem revert_conducts (hlatch : e.Latched test) {r : Result}
    (h : (e.revert test t).on s = (.ok r, s')) : e.Conducts .revert test t s r s' := by
  obtain ⟨start, s₁, hstart, h⟩ := Act.ok_of_on_bind h
  cases hstart
  show ∃ ran, Ran test ran r.cancelled s s' ∧ _
  split at h
  · obtain ⟨hr, hquiet⟩ := quiet_of_refuse hlatch h
    exact ⟨[], hr ▸ .done hquiet, .inl rfl⟩
  split at h
  · obtain ⟨hr, hquiet⟩ := quiet_of_refuse hlatch h
    exact ⟨[], hr ▸ .done hquiet, .inl rfl⟩
  obtain ⟨steps, s₁, hsteps, h⟩ := Act.ok_of_on_bind h
  obtain ⟨hsteps, hlead⟩ := quiet_of_revertSteps hlatch hsteps
  obtain ⟨r₁, s₂, hrun, h⟩ := Act.ok_of_on_bind h
  obtain ⟨ran, hprefix, hran⟩ := execute_ran hlatch rfl hrun
  have hlast : r.cancelled = r₁.cancelled ∧ Quiet test s₂ s' := by
    dsimp only at h
    split at h
    · obtain ⟨_, s₃, hdelete, h⟩ := Act.ok_of_on_bind h
      obtain ⟨hr, hfinish⟩ := quiet_of_finish hlatch h
      exact ⟨hr, ((hlatch.quiet (.deleteSnapshot t) (keeps_deleteSnapshot t)).of_on hdelete).trans
        hfinish⟩
    · obtain ⟨hr, hfinish⟩ := quiet_of_finish hlatch h
      exact ⟨hr, hfinish⟩
  exact ⟨ran, hlast.1 ▸ (hran.before hlead).after hlast.2, .inr ⟨steps, hsteps, hprefix⟩⟩

/-- **A call looks at the token before every operation**, and runs none once it is seen
cancelled. -/
theorem call_conducts (hlatch : e.Latched test) {action : Action} {r : Result}
    (h : (e.call action test t).on s = (.ok r, s')) : e.Conducts action test t s r s' := by
  cases action with
  | apply => exact apply_conducts hlatch h
  | revert => exact revert_conducts hlatch h

end Engine
end TweakEngine
