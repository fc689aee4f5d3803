/-
# Every step is accounted for

A run of steps goes on after every outcome that is recorded, also after a step that fails as
cancelled, and it ends in one of three ways (`Ending`): there is no step left, the token is seen
cancelled before a step, or a step fails in a way that is not recorded.
`Runs cancelled steps s begun ending s'` says which steps are run, each from the session in which
it begins, and how the run ends.  Every run of `execute` is such a run, and what it gives is put
together from the entries of its steps and from its ending (`execute_runs`); the entries, the two
flags and the steps that are left out are read off from there (`execute_accounts`).

The token is any test of the session, and it is looked at before a step only.  Whoever cancels it
while a step runs does so as a part of what happens in that step.
-/

import TweakEngine.Proofs.HushedCalls
import TweakEngine.Proofs.OperationAccounts

namespace TweakEngine

open Session

variable {μ : Type}

/-- How many entries the three lists of a result have. -/
def Result.entryCount (r : Result) : Nat := r.applied.length + r.messages.length + r.failed.length

/-! ## Endings -/

/-- How a run of steps ends. -/
inductive Ending (μ : Type)
  | complete
  /-- The token was seen cancelled, in this session. -/
  | stopped (seen : Session μ)
  | broken (f : Failure)

namespace Ending

/-- The result of a run that ends in this way, out of what its steps have entered. -/
def close (r : Result) : Ending μ → Result
  | complete => r
  | stopped _ => { r with
      success := false
      cancelled := true
      errorMessage := some Failure.stopped.message
      error := some Failure.stopped }
  | broken f => { r with
      success := false
      errorMessage := some ("Unexpected error: " ++ f.message)
      error := some f }

theorem close_success (ending : Ending μ) (r : Result) :
    (ending.close r).success = true ↔ r.success = true ∧ ending = complete := by
  cases ending <;> simp [close]

theorem close_cancelled (ending : Ending μ) (r : Result) :
    (ending.close r).cancelled = true ↔ r.cancelled = true ∨ ∃ x, ending = stopped x := by
  cases ending <;> simp [close]

/-- An ending makes no entries. -/
theorem close_entryCount (ending : Ending μ) (r : Result) :
    (ending.close r).entryCount = r.entryCount := by
  cases ending <;> rfl

end Ending

namespace Engine

/-! ## Steps that are run -/

/-- A step that is run, with the session in which it begins. -/
structure Begun (μ : Type) where
  step : Step μ
  session : Session μ

namespace Begun

/-- What the step gives. -/
def outcome (b : Begun μ) : Except Failure (Option String) := (b.step.run.on b.session).1

/-- The session that the step leaves. -/
def after (b : Begun μ) : Session μ := (b.step.run.on b.session).2

/-- What is entered for the step: its account, under its label. -/
def entry? (b : Begun μ) : Option (Datum × Account) :=
  (Account.of? b.outcome).map fun a => (b.step.label, a)

/-- Only a failure that is not recorded has no entry. -/
theorem isSome_entry? (b : Begun μ) : b.entry?.isSome = goesOn b.outcome := by
  unfold entry?
  rw [Option.isSome_map]
  rcases b.outcome with f | note?
  · cases hf : f.isOperational <;> simp [Account.of?, goesOn, hf]
  · cases note? <;> rfl

end Begun

/-- The steps run one after the other from one session to another, and besides them nothing
is done: between them, before the first and after the last there are messages at most. -/
def Chain : Session μ → List (Begun μ) → Session μ → Prop
  | s, [], s' => s'.hushed = s.hushed
  | s, b :: begun, s' => b.session.hushed = s.hushed ∧ Chain b.after begun s'

/-- Steps are run in order.  Before each of them the token is looked at. -/
inductive Runs (cancelled : Session μ → Bool) :
    List (Step μ) → Session μ → List (Begun μ) → Ending μ → Session μ → Prop
  | complete (s : Session μ) : Runs cancelled [] s [] .complete s
  | stopped {st : Step μ} {steps : List (Step μ)} {s s' : Session μ} (seen : cancelled s = true)
      (quiet : s'.hushed = s.hushed) : Runs cancelled (st :: steps) s [] (.stopped s) s'
  | broken {st : Step μ} {steps : List (Step μ)} {s s' : Session μ} {f : Failure}
      (free : cancelled s = false) (fails : (st.run.on s).1 = .error f)
      (unexpected : f.isOperational = false) (quiet : s'.hushed = (st.run.on s).2.hushed) :
      Runs cancelled (st :: steps) s [⟨st, s⟩] (.broken f) s'
  | onward {st : Step μ} {steps : List (Step μ)} {s s₁ s' : Session μ} {begun : List (Begun μ)}
      {ending : Ending μ} (free : cancelled s = false) (on : goesOn (st.run.on s).1 = true)
      (quiet : s₁.hushed = (st.run.on s).2.hushed)
      (rest : Runs cancelled steps s₁ begun ending s') :
      Runs cancelled (st :: steps) s (⟨st, s⟩ :: begun) ending s'

namespace Runs

variable {cancelled : Session μ → Bool} {steps : List (Step μ)} {s s' : Session μ}
  {begun : List (Begun μ)} {ending : Ending μ}

theorem first (h : Runs cancelled steps s begun ending s') : begun.map Begun.step <+: steps := by
  induction h with
  | complete | stopped => exact List.nil_prefix
  | broken => exact (List.prefix_cons_inj _).mpr List.nil_prefix
  | onward _ _ _ _ ih => exact (List.prefix_cons_inj _).mpr ih

/-- A run that begins a little later, after messages, is still a chain. -/
theorem chain (h : Runs cancelled steps s begun ending s') {s₀ : Session μ}
    (h₀ : s.hushed = s₀.hushed) : Chain s₀ begun s' := by
  induction h generalizing s₀ with
  | complete => exact h₀
  | stopped _ quiet => exact quiet.trans h₀
  | broken _ _ _ quiet => exact ⟨h₀, quiet⟩
  | onward _ _ quiet _ ih => exact ⟨h₀, ih quiet⟩

theorem free (h : Runs cancelled steps s begun ending s') :
    ∀ b ∈ begun, cancelled b.session = false := by
  induction h with
  | complete | stopped => exact List.forall_mem_nil _
  | broken free => exact List.forall_mem_singleton.mpr free
  | onward free _ _ _ ih => exact List.forall_mem_cons.mpr ⟨free, ih⟩

/-- Only the last step that is run can fail unexpectedly. -/
theorem expected (h : Runs cancelled steps s begun ending s') :
    ∀ b ∈ begun.dropLast, goesOn b.outcome = true := by
  induction h with
  | complete | stopped | broken => exact List.forall_mem_nil _
  | @onward st _ s _ _ begun _ _ on _ _ ih =>
    cases begun with
    | nil => exact List.forall_mem_nil _
    | cons b begun => exact List.forall_mem_cons.mpr ⟨on, ih⟩

theorem complete_iff (h : Runs cancelled steps s begun ending s') : ending = .complete ↔
    begun.map Begun.step = steps ∧ ∀ b ∈ begun, goesOn b.outcome = true := by
  -- a run that is cut short lacks a step, or has one that did not go on
  induction h with
  | complete => exact iff_of_true rfl ⟨rfl, List.forall_mem_nil _⟩
  | stopped => exact iff_of_false nofun fun h => nomatch h.1
  | @broken st _ s _ _ _ fails unexpected =>
    refine iff_of_false nofun fun h => ?_
    have hon : goesOn (st.run.on s).1 = true := h.2 _ List.mem_cons_self
    rw [fails] at hon
    exact Bool.false_ne_true (unexpected.symm.trans hon)
  | onward _ on _ _ ih =>
    rw [ih, List.map_cons, List.cons.injEq, List.forall_mem_cons]
    exact ⟨fun h => ⟨⟨rfl, h.1⟩, on, h.2⟩, fun h => ⟨h.1.2, h.2.2⟩⟩

/-- A run that is stopped has come to a step that is left, and has seen the token cancelled in
the session that the steps before it have left. -/
theorem of_stopped (h : Runs cancelled steps s begun ending s') {x : Session μ}
    (hx : ending = .stopped x) : cancelled x = true ∧ x.hushed = s'.hushed ∧
      begun.length < steps.length ∧ ∀ b ∈ begun, goesOn b.outcome = true := by
  induction h with
  | complete | broken => cases hx
  | stopped seen quiet =>
    cases hx
    exact ⟨seen, quiet.symm, Nat.succ_pos _, List.forall_mem_nil _⟩
  | onward _ on _ _ ih =>
    obtain ⟨hseen, hquiet, hleft, hgo⟩ := ih hx
    exact ⟨hseen, hquiet, Nat.succ_lt_succ hleft, List.forall_mem_cons.mpr ⟨on, hgo⟩⟩

/-- A step is left out only by a run that is stopped or broken off. -/
theorem of_left (h : Runs cancelled steps s begun ending s') (hleft : begun.length < steps.length) :
    (∃ x, ending = .stopped x) ∨ ∃ f, ending = .broken f := by
  cases hending : ending with
  | complete =>
    have hall := (h.complete_iff.mp hending).1
    rw [← hall, List.length_map] at hleft
    exact absurd hleft (Nat.lt_irrefl _)
  | stopped x => exact .inl ⟨x, rfl⟩
  | broken f => exact .inr ⟨f, rfl⟩

/-- A run that is broken off has come to a step that failed unexpectedly. -/
theorem of_broken (h : Runs cancelled steps s begun ending s') {f : Failure}
    (hf : ending = .broken f) : f.isOperational = false ∧
      ∃ b, begun.getLast? = some b ∧ b.outcome = .error f := by
  induction h with
  | complete | stopped => cases hf
  | broken _ fails unexpected =>
    cases hf
    exact ⟨unexpected, _, rfl, fails⟩
  | onward _ _ _ _ ih =>
    obtain ⟨hunexpected, b, hb, hfails⟩ := ih hf
    exact ⟨hunexpected, b, by rw [List.getLast?_cons, hb]; rfl, hfails⟩

end Runs

/-! ## One step of a run -/

variable {st : Step μ} {steps : List (Step μ)} {r r₁ : Result} {s s₁ : Session μ}

/-- Recording the outcome of a step leaves messages at most. -/
theorem runStep_hushed (st : Step μ) (r : Result) (s : Session μ) :
    ((runStep st r).on s).2.hushed = (st.run.on s).2.hushed := by
  unfold runStep
  rw [Act.on_bind, Act.on_attempt]
  rcases st.run.on s with ⟨f | note?, s₁⟩
  · dsimp only
    split <;> rfl
  · cases note? <;> rfl

/-- An unexpected failure is entered nowhere. -/
theorem runStep_breaks {f : Failure} (hfails : (st.run.on s).1 = .error f)
    (hf : f.isOperational = false) (r : Result) :
    (runStep st r).on s = (.ok (r, some f), (st.run.on s).2) := by
  unfold runStep
  rw [Act.on_bind, Act.on_attempt, hfails]
  dsimp only
  rw [hf, if_neg Bool.false_ne_true]
  rfl

/-! ## Whole runs -/

/-- A result in which the steps that were run are entered. -/
def entered (r : Result) (begun : List (Begun μ)) : Result :=
  r.enter (begun.filterMap Begun.entry?)

theorem entered_nil (r : Result) : entered r ([] : List (Begun μ)) = r := Result.enter_nil r

theorem entered_cons {b : Begun μ} {a : Account} (ha : Account.of? b.outcome = some a)
    (r : Result) (begun : List (Begun μ)) :
    entered r (b :: begun) = entered (r.enter [(b.step.label, a)]) begun := by
  have hentry : b.entry? = some (b.step.label, a) := by rw [Begun.entry?, ha, Option.map_some]
  rw [entered, List.filterMap_cons_some hentry, entered, Result.enter_enter, List.singleton_append]

theorem entered_unexpected {b : Begun μ} (hb : goesOn b.outcome = false) (r : Result) :
    entered r [b] = r := by
  have hentry : b.entry? = none := by
    rw [← Option.not_isSome_iff_eq_none, Begun.isSome_entry?, hb]
    exact Bool.false_ne_true
  rw [entered, List.filterMap_cons_none hentry, List.filterMap_nil, Result.enter_nil]

theorem entryCount_entered (r : Result) (begun : List (Begun μ)) :
    (entered r begun).entryCount = r.entryCount + begun.countP fun b => goesOn b.outcome := by
  rw [entered, Result.entryCount, Result.enter_count, List.length_filterMap_eq_countP]
  simp only [Begun.isSome_entry?, Result.entryCount]

/-- What is begun decides the run: with any other steps in the places of those that are left out,
and with any other token that shows the same in the sessions in which it is looked at, it gives
the same result and ends in the same session. -/
def Decided (steps : List (Step μ)) (begun : List (Begun μ)) (ending : Ending μ) (r : Result)
    (s : Session μ) (r' : Result) (s' : Session μ) : Prop :=
  ∀ (test : Session μ → Bool) (others : List (Step μ)),
    begun.length + others.length = steps.length → (∀ b ∈ begun, test b.session = false) →
      (∀ x, ending = .stopped x → test x = true) →
        (execute test (begun.map Begun.step ++ others) r).on s = (.ok r', s')

namespace Decided

variable {r' : Result} {s' : Session μ} {begun : List (Begun μ)} {ending : Ending μ}

theorem complete (r : Result) (s : Session μ) : Decided [] [] .complete r s r s := by
  intro test others hlength _ _
  have hothers : others = [] := List.eq_nil_of_length_eq_zero (by simpa using hlength)
  rw [hothers]
  rfl

/-- A token that is seen cancelled ends the run, whatever the steps are. -/
theorem stopped (st : Step μ) (steps : List (Step μ)) (r : Result) (s : Session μ) :
    ∃ s', s'.hushed = s.hushed ∧
      Decided (st :: steps) [] (.stopped s) r s ((Ending.stopped s).close r) s' := by
  refine ⟨((stopRun r).on s).2, rfl, fun test others hlength _ hseen => ?_⟩
  obtain ⟨st', others, rfl⟩ := List.exists_cons_of_length_eq_add_one (by simpa using hlength)
  rw [List.map_nil, List.nil_append, execute_of_cancelled (hseen s rfl)]
  rfl

/-- An unexpected failure ends the run, whatever the steps after it are. -/
theorem broken {f : Failure} (hfails : (st.run.on s).1 = .error f) (hf : f.isOperational = false)
    (steps : List (Step μ)) (r : Result) :
    ∃ s', s'.hushed = (st.run.on s).2.hushed ∧ Decided (st :: steps) [⟨st, s⟩] (.broken f) r s
      ((Ending.broken f : Ending μ).close r) s' := by
  refine ⟨((breakRun r f).on (st.run.on s).2).2, rfl, fun test others _ hfree _ => ?_⟩
  have htest : test s = false := hfree _ List.mem_cons_self
  rw [List.map_singleton, List.singleton_append,
    execute_of_step htest (runStep_breaks hfails hf r)]
  rfl

/-- After a step that is entered the run goes on. -/
theorem onward (hstep : (runStep st r).on s = (.ok (r₁, none), s₁))
    (h : Decided steps begun ending r₁ s₁ r' s') :
    Decided (st :: steps) (⟨st, s⟩ :: begun) ending r s r' s' := by
  intro test others hlength hfree hseen
  obtain ⟨htest, hrest⟩ := List.forall_mem_cons.mp hfree
  rw [List.map_cons, List.cons_append, execute_of_step htest hstep]
  refine h test others ?_ hrest hseen
  rw [List.length_cons, List.length_cons] at hlength
  omega

/-- A run that is decided is the run of all steps. -/
theorem on {cancelled : Session μ → Bool} (h : Decided steps begun ending r s r' s')
    (hruns : Runs cancelled steps s begun ending s') :
    (execute cancelled steps r).on s = (.ok r', s') := by
  obtain ⟨others, hothers⟩ := hruns.first
  have hlength : begun.length + others.length = steps.length := by
    rw [← hothers, List.length_append, List.length_map]
  rw [← hothers]
  exact h cancelled others hlength hruns.free fun x hx => (hruns.of_stopped hx).1

end Decided

/-- **A run of steps** runs the first of them, and gives what they enter and how it ends. -/
theorem execute_runs (cancelled : Session μ → Bool) (steps : List (Step μ)) (r : Result)
    (s : Session μ) : ∃ begun ending s', Runs cancelled steps s begun ending s' ∧
      Decided steps begun ending r s (ending.close (entered r begun)) s' := by
  -- by induction on the steps, for whatever was entered and done before them
  induction steps generalizing r s with
  | nil =>
    refine ⟨[], .complete, s, .complete s, ?_⟩
    rw [entered_nil]
    exact .complete r s
  | cons st steps ih =>
    cases hs : cancelled s with
    | true =>
      obtain ⟨s', hquiet, hdecided⟩ := Decided.stopped st steps r s
      refine ⟨[], .stopped s, s', .stopped hs hquiet, ?_⟩
      rw [entered_nil]
      exact hdecided
    | false =>
      cases hon : goesOn (st.run.on s).1 with
      | true =>
        obtain ⟨a, s₁, ha, -, hstep⟩ := runStep_enters hon r
        obtain ⟨begun, ending, s', hruns, hdecided⟩ := ih (r.enter [(st.label, a)]) s₁
        have hquiet : s₁.hushed = (st.run.on s).2.hushed := by rw [← runStep_hushed st r s, hstep]
        refine ⟨⟨st, s⟩ :: begun, ending, s', .onward hs hon hquiet hruns, ?_⟩
        rw [entered_cons (b := ⟨st, s⟩) ha]
        exact hdecided.onward hstep
      | false =>
        obtain ⟨f, hfails, hf⟩ : ∃ f, (st.run.on s).1 = .error f ∧ f.isOperational = false := by
          revert hon
          rcases (st.run.on s).1 with f | note?
          · exact fun hf => ⟨f, rfl, hf⟩
          · exact nofun
        obtain ⟨s', hquiet, hdecided⟩ := Decided.broken hfails hf steps r
        refine ⟨[⟨st, s⟩], .broken f, s', .broken hs hfails hf hquiet, ?_⟩
        rw [entered_unexpected (b := ⟨st, s⟩) hon]
        exact hdecided

/-- What a run of steps comes to.  `begun` are the steps that are run. -/
structure Accounts (cancelled : Session μ → Bool) (steps : List (Step μ)) (r : Result)
    (s : Session μ) (begun : List (Begun μ)) (ending : Ending μ) (r' : Result) (s' : Session μ) :
    Prop where
  /-- They are the first of all steps, in their order. -/
  first : begun.map Begun.step <+: steps
  /-- They run one after the other, and nothing else is done. -/
  chain : Chain s begun s'
  /-- No other step has a part in the run. -/
  decided : Decided steps begun ending r s r' s'
  /-- The token was looked at before each of them, and it was not cancelled. -/
  free : ∀ b ∈ begun, cancelled b.session = false
  /-- Only the last of them can fail unexpectedly. -/
  expected : ∀ b ∈ begun.dropLast, goesOn b.outcome = true
  /-- Each has an entry, unless it fails unexpectedly. -/
  entry : ∀ b ∈ begun, b.entry?.isSome = goesOn b.outcome
  /-- The entries are made in the order of the steps, each in the list for its account. -/
  result : r' = ending.close (entered r begun)
  /-- There are as many new entries as steps that did not fail unexpectedly. -/
  count : r'.entryCount = r.entryCount + begun.countP fun b => goesOn b.outcome
  /-- The result stays successful exactly if all steps are run and none fails unexpectedly. -/
  success : r'.success = true ↔ r.success = true ∧ begun.map Begun.step = steps ∧
    ∀ b ∈ begun, goesOn b.outcome = true
  /-- The result is marked as cancelled exactly if the token is seen cancelled. -/
  marked : r'.cancelled = true ↔ r.cancelled = true ∨ ∃ x, ending = .stopped x
  /-- The token is seen cancelled when a step is left and none has failed unexpectedly. -/
  stopped : ∀ x, ending = .stopped x → cancelled x = true ∧ x.hushed = s'.hushed ∧
    begun.length < steps.length ∧ ∀ b ∈ begun, goesOn b.outcome = true
  /-- A run is broken off by the unexpected failure of the last step that is run. -/
  broken : ∀ f, ending = .broken f → f.isOperational = false ∧
    ∃ b, begun.getLast? = some b ∧ b.outcome = .error f
  /-- Nothing else keeps a step from being run. -/
  left : begun.length < steps.length → (∃ x, ending = .stopped x) ∨ ∃ f, ending = .broken f

/-- A step that fails as cancelled costs only itself; one that overflows ends the run. -/
example : ((execute (fun _ => false)
    [⟨.text "a", pure none⟩, ⟨.text "b", pure (some "nothing to do")⟩,
      ⟨.text "c", throw .stopped⟩, ⟨.text "d", pure none⟩,
      ⟨.text "e", throw (.overflow "too large")⟩, ⟨.text "f", pure none⟩]
    { success := true, tweakId := "t" }).on ({ host := { machine := () } } : Session Unit)).1.map
      (fun r => (r.success, r.cancelled, r.applied, r.messages, r.failed)) =
    .ok (false, false, [.text "a", .text "d"], [.text "b: nothing to do"],
      [.text "c: Operation cancelled"]) := by
  rfl

end Engine
end TweakEngine
