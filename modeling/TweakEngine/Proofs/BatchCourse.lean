/-
# The course of a batch

A batch goes through rounds: in a round one tweak is applied or reverted, and between the
rounds progress is reported and something is said.  `Course Q s rounds s'` says that such
rounds lead from `s` to `s'` and that whatever happens before, between and after them goes
along `Q`.  Every batch is such a course, also one that fails (`runBatch_course`): its
rounds are those of its first tweaks in order, and its results are those of the rounds.
-/

import TweakEngine.Execution.Batch
import TweakEngine.Proofs.Actions

namespace TweakEngine

variable {μ S α β : Type}

/-- A round of a batch: what is done with which tweak, the states before and after it, and
what it gives. -/
structure Round (S : Type) where
  action : Action
  tweak : Tweak
  before : S
  outcome : Except Failure Result
  after : S

namespace Round

/-- The round is one of the engine. -/
def Of (e : Engine μ) (part : Part S (Session μ)) (cancelled : S → Bool) (x : Round S) : Prop :=
  (e.runOne part x.action cancelled x.tweak).on x.before = (x.outcome, x.after)

/-- The result of a round under the identifier of its tweak. -/
def entry? (x : Round S) : Option (String × Result) :=
  match x.outcome with
  | .ok r => some (x.tweak.id, r)
  | .error _ => none

end Round

/-- The rounds lead from one state to another, and the rest goes along `Q`. -/
def Course (Q : S → S → Prop) : S → List (Round S) → S → Prop
  | s, [], s' => Q s s'
  | s, x :: xs, s' => Q s x.before ∧ Course Q x.after xs s'

namespace Course

variable {Q : S → S → Prop} {s t u : S} {xs ys : List (Round S)}

theorem after (hQ : ∀ {s t u}, Q s t → Q t u → Q s u) (hst : Q s t) (hc : Course Q t xs u) :
    Course Q s xs u := by
  cases xs with
  | nil => exact hQ hst hc
  | cons x xs => exact ⟨hQ hst hc.1, hc.2⟩

theorem append (hQ : ∀ {s t u}, Q s t → Q t u → Q s u) (hx : Course Q s xs t)
    (hy : Course Q t ys u) : Course Q s (xs ++ ys) u := by
  induction xs generalizing s with
  | nil => exact after (Q := Q) hQ hx hy
  | cons x xs ih => exact ⟨hx.1, ih hx.2⟩

end Course

/-- What happens besides the rounds of a batch goes along `Q`: nothing, one thing after the
other, what the sink does, and messages. -/
structure Between (part : Part S (Session μ)) (sink : Option (Progress → Act S Unit))
    (Q : S → S → Prop) : Prop where
  refl : ∀ s, Q s s
  trans : ∀ {s t u}, Q s t → Q t u → Q s u
  sink : ∀ f, sink = some f → ∀ p, (f p).Along Q
  say : ∀ level speaker text, (part.lift (Session.say level speaker text)).Along Q

namespace Between

variable {part : Part S (Session μ)} {sink : Option (Progress → Act S Unit)} {Q : S → S → Prop}

theorem pure (h : Between part sink Q) (x : α) : (Pure.pure x : Act S α).Along Q := h.refl

theorem bind (h : Between part sink Q) {a : Act S α} {k : α → Act S β} (ha : a.Along Q)
    (hk : ∀ x, (k x).Along Q) : (a >>= k).Along Q :=
  Act.Along.bind (Q := Q) h.trans ha hk

/-- A report does what the sink does; a failure of the sink is said. -/
theorem report (h : Between part sink Q) (p : Progress) :
    (Engine.report part sink p).Along Q := by
  unfold Engine.report
  cases hs : sink with
  | none => exact h.pure ()
  | some f =>
    refine h.bind (fun s => h.sink f hs p s) fun r => ?_
    cases r with
    | ok _ => exact h.pure ()
    | error f => exact h.say _ _ _

theorem course_of (h : Between part sink Q) {s t u : S} {xs : List (Round S)} (hst : Q s t)
    (hc : Course Q t xs u) : Course Q s xs u := Course.after (Q := Q) h.trans hst hc

theorem course_append (h : Between part sink Q) {s t u : S} {xs ys : List (Round S)}
    (hx : Course Q s xs t) (hy : Course Q t ys u) : Course Q s (xs ++ ys) u :=
  Course.append (Q := Q) h.trans hx hy

end Between

theorem Course.imp {Q P : S → S → Prop} (hQ : ∀ {s t}, Q s t → P s t) {s s' : S}
    {xs : List (Round S)} (hc : Course Q s xs s') : Course P s xs s' := by
  induction xs generalizing s with
  | nil => exact hQ hc
  | cons x xs ih => exact ⟨hQ hc.1, ih hc.2⟩

/-- A relation that every round and everything between them goes along is gone along by the
whole course. -/
theorem Course.along {P Q : S → S → Prop} (hPQ : ∀ {s t u}, P s t → P t u → P s u)
    (hQ : ∀ {s t}, Q s t → P s t) {s s' : S} {xs : List (Round S)}
    (hround : ∀ x ∈ xs, P x.before x.after) (hc : Course Q s xs s') : P s s' := by
  induction xs generalizing s with
  | nil => exact hQ hc
  | cons x xs ih =>
    have htail := ih (fun y hy => hround y (List.mem_cons_of_mem _ hy)) hc.2
    exact hPQ (hPQ (hQ hc.1) (hround x List.mem_cons_self)) htail

/-- Such a relation leads to the beginning of every round. -/
theorem Course.along_before {P Q : S → S → Prop} (hPQ : ∀ {s t u}, P s t → P t u → P s u)
    (hQ : ∀ {s t}, Q s t → P s t) {s s' : S} {xs : List (Round S)}
    (hround : ∀ x ∈ xs, P x.before x.after) (hc : Course Q s xs s') : ∀ x ∈ xs, P s x.before := by
  induction xs generalizing s with
  | nil => exact List.forall_mem_nil _
  | cons x xs ih =>
    have htail := ih (fun y hy => hround y (List.mem_cons_of_mem _ hy)) hc.2
    have hthere := hPQ (hQ hc.1) (hround x List.mem_cons_self)
    exact List.forall_mem_cons.mpr ⟨hQ hc.1, fun y hy => hPQ hthere (htail y hy)⟩

namespace Engine

variable {e : Engine μ} {part : Part S (Session μ)} {sink : Option (Progress → Act S Unit)}
  {Q : S → S → Prop} {cancelled : S → Bool} {action : Action}

/-- The rounds are rounds of the engine with one action, about the first of the tweaks. -/
structure RoundsOf (e : Engine μ) (part : Part S (Session μ)) (cancelled : S → Bool)
    (action : Action) (tweaks : List Tweak) (rounds : List (Round S)) : Prop where
  each : ∀ x ∈ rounds, x.Of e part cancelled
  action : ∀ x ∈ rounds, x.action = action
  tweaks : rounds.map Round.tweak <+: tweaks

theorem RoundsOf.nil (tweaks : List Tweak) : RoundsOf e part cancelled action tweaks [] :=
  ⟨List.forall_mem_nil _, List.forall_mem_nil _, List.nil_prefix⟩

theorem RoundsOf.cons {t : Tweak} {tweaks : List Tweak} {x : Round S} {xs : List (Round S)}
    (hx : x.Of e part cancelled) (ha : x.action = action) (ht : x.tweak = t)
    (h : RoundsOf e part cancelled action tweaks xs) :
    RoundsOf e part cancelled action (t :: tweaks) (x :: xs) where
  each := List.forall_mem_cons.mpr ⟨hx, h.each⟩
  action := List.forall_mem_cons.mpr ⟨ha, h.action⟩
  tweaks := by
    rw [List.map_cons, ht]
    exact (List.prefix_cons_inj t).mpr h.tweaks

/-- The rest of a batch is a course. -/
theorem runFrom_course (hQ : Between part sink Q) (total : Nat) (tweaks : List Tweak) :
    ∀ (index : Nat) (results : Assoc String Result) (s : S), ∃ rounds,
      Course Q s rounds
        ((e.runFrom part action sink cancelled total index tweaks results).on s).2 ∧
      RoundsOf e part cancelled action tweaks rounds ∧
      ∀ r, ((e.runFrom part action sink cancelled total index tweaks results).on s).1 = .ok r →
        r = Assoc.update results (rounds.filterMap Round.entry?) ∧
          ∀ x ∈ rounds, ∃ y, x.outcome = .ok y := by
  induction tweaks with
  | nil =>
    intro index results s
    exact ⟨[], hQ.refl s, .nil _, fun r hr => by cases hr; exact ⟨rfl, List.forall_mem_nil _⟩⟩
  | cons t tweaks ih =>
    intro index results s
    unfold runFrom
    rw [Act.on_bind, Act.on_view]
    dsimp only
    cases hc : cancelled s with
    | true =>
      have hsay := hQ.say .info speaker
        ("Batch cancelled with " ++ toString (total - index) ++ " tweaks remaining") s
      simp only [if_true]
      rw [Act.on_bind]
      exact ⟨[], hsay, .nil _, fun r hr => by cases hr; exact ⟨rfl, List.forall_mem_nil _⟩⟩
    | false =>
      simp only [Bool.false_eq_true, if_false]
      have hfirst := hQ.report ⟨total, index, t.name, startedWord action⟩ s
      rw [Act.on_bind]
      revert hfirst
      rcases (report part sink ⟨total, index, t.name, startedWord action⟩).on s with ⟨f | _, s₁⟩ <;>
        intro hfirst
      · exact ⟨[], hfirst, .nil _, fun _ hr => by cases hr⟩
      dsimp only
      rw [Act.on_bind]
      rcases hrun : (e.runOne part action cancelled t).on s₁ with ⟨f | y, s₂⟩
      · refine ⟨[⟨action, t, s₁, .error f, s₂⟩], ⟨hfirst, hQ.refl s₂⟩,
          .cons hrun rfl rfl (.nil _), fun _ hr => by cases hr⟩
      dsimp only
      have hlast := hQ.report ⟨total, index + 1, t.name, finishedWord action y⟩ s₂
      rw [Act.on_bind]
      revert hlast
      rcases (report part sink ⟨total, index + 1, t.name, finishedWord action y⟩).on s₂ with
        ⟨f | _, s₃⟩ <;> intro hlast
      · exact ⟨[⟨action, t, s₁, .ok y, s₂⟩], ⟨hfirst, hlast⟩, .cons hrun rfl rfl (.nil _),
          fun _ hr => by cases hr⟩
      obtain ⟨rounds, hcourse, hrounds, hok⟩ := ih (index + 1) (Assoc.put t.id y results) s₃
      refine ⟨⟨action, t, s₁, .ok y, s₂⟩ :: rounds, ⟨hfirst, hQ.course_of hlast hcourse⟩,
        .cons hrun rfl rfl hrounds, fun r hr => ?_⟩
      obtain ⟨hr, hall⟩ := hok r hr
      exact ⟨hr, List.forall_mem_cons.mpr ⟨⟨y, rfl⟩, hall⟩⟩

/-- A batch over the tweaks is a course of rounds, and gives the results of the rounds. -/
structure Batched (e : Engine μ) (part : Part S (Session μ)) (cancelled : S → Bool)
    (Q : S → S → Prop) (action : Action) (tweaks : List Tweak) (rounds : List (Round S)) (s : S)
    (out : Except Failure (Assoc String Result) × S) : Prop
    extends RoundsOf e part cancelled action tweaks rounds where
  course : Course Q s rounds out.2
  results : ∀ r, out.1 = .ok r →
    r = Assoc.ofList (rounds.filterMap Round.entry?) ∧ ∀ x ∈ rounds, ∃ y, x.outcome = .ok y

/-- A batch that does not begin. -/
theorem Batched.none {tweaks : List Tweak} {s s' : S} {f : Failure} (h : Q s s') :
    Batched e part cancelled Q action tweaks [] s (.error f, s') :=
  ⟨.nil _, h, fun _ hr => by cases hr⟩

/-- Something may happen before a batch. -/
theorem Batched.after (hQ : Between part sink Q) {tweaks : List Tweak} {rounds : List (Round S)}
    {s t : S} {out : Except Failure (Assoc String Result) × S} (hst : Q s t)
    (h : Batched e part cancelled Q action tweaks rounds t out) :
    Batched e part cancelled Q action tweaks rounds s out :=
  { h with course := hQ.course_of hst h.course }

/-- **A batch is a course** of rounds of its first tweaks. -/
theorem runBatch_course (hQ : Between part sink Q) (tweaks : List Tweak) (s : S) : ∃ rounds,
    Batched e part cancelled Q action tweaks rounds s
      ((e.runBatch part action tweaks sink cancelled).on s) := by
  obtain ⟨rounds, hcourse, hrounds, hresults⟩ := runFrom_course (e := e) hQ tweaks.length tweaks 0 [] s
  exact ⟨rounds, hrounds, hcourse, hresults⟩

end Engine
end TweakEngine
