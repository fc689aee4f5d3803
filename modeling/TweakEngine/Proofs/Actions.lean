/-
# What actions leave behind

`Act.Keeps f a` says that the action `a` leaves what `f` shows of the state as it was,
whether it succeeds or not.  Of a session, `Session.core` shows what later actions
work on: the machine, the files, the captures and the store.  Messages, the clock and
the trail are not part of it, and everything that only speaks keeps it.  `Act.DependsOn f a`
says that `a` looks at nothing else than what `f` shows.
-/

import TweakEngine.Execution.Steps
import TweakEngine.System.Machine
import TweakEngine.System.Shell

namespace TweakEngine

section

variable {α β : Type} {f : α → Except Failure β}

theorem ok_bind (a : α) (f : α → Except Failure β) : (Except.ok a >>= f) = f a := rfl

theorem ok_of_bind {ε : Type} {x : Except ε α} {f : α → Except ε β} {b : β} (h : x >>= f = .ok b) :
    ∃ a, x = .ok a ∧ f a = .ok b := by
  cases x with
  | error f => cases h
  | ok a => exact ⟨a, rfl, h⟩

/-- Everything in the list of results is a result. -/
theorem mem_of_mapM : ∀ {xs : List α} {ys : List β}, xs.mapM f = .ok ys →
    ∀ y ∈ ys, ∃ x ∈ xs, f x = .ok y
  | [], ys, h, y, hy => by
    cases h
    cases hy
  | x :: xs, ys, h, y, hy => by
    rw [List.mapM_cons] at h
    obtain ⟨y₀, hy₀, h⟩ := ok_of_bind h
    obtain ⟨ys₀, hys₀, h⟩ := ok_of_bind h
    cases h
    rcases List.mem_cons.mp hy with rfl | hy
    · exact ⟨x, List.mem_cons_self, hy₀⟩
    · obtain ⟨x', hx', hf⟩ := mem_of_mapM hys₀ y hy
      exact ⟨x', List.mem_cons_of_mem _ hx', hf⟩

/-- When every item has a result, so has the list. -/
theorem mapM_ok : ∀ (xs : List α), (∀ x ∈ xs, ∃ y, f x = .ok y) → ∃ ys, xs.mapM f = .ok ys
  | [], _ => ⟨[], rfl⟩
  | x :: xs, h => by
    obtain ⟨y, hy⟩ := h x List.mem_cons_self
    obtain ⟨ys, hys⟩ := mapM_ok xs fun x' hx' => h x' (List.mem_cons_of_mem _ hx')
    exact ⟨y :: ys, by rw [List.mapM_cons, hy, hys]; rfl⟩

end

namespace Act

variable {σ α β γ : Type}

@[simp] theorem on_view (f : σ → α) (s : σ) : (view f).on s = (.ok (f s), s) := rfl

@[simp] theorem on_change (f : σ → σ) (s : σ) : (change f).on s = (.ok (), f s) := rfl

@[simp] theorem on_result (r : Except Failure α) (s : σ) : (result r).on s = (r, s) := rfl

@[simp] theorem on_attempt (a : Act σ α) (s : σ) :
    a.attempt.on s = (.ok (a.on s).1, (a.on s).2) := rfl

@[simp] theorem on_map (f : α → β) (a : Act σ α) (s : σ) :
    (f <$> a).on s = (f <$> (a.on s).1, (a.on s).2) := by
  rw [← bind_pure_comp, on_bind]
  rcases a.on s with ⟨r | x, t⟩ <;> rfl

@[simp] theorem on_discard (a : Act σ α) (s : σ) :
    (discard a).on s = ((fun _ => ()) <$> (a.on s).1, (a.on s).2) := on_map _ a s

theorem discard_bind (a : Act σ α) (k : PUnit → Act σ β) :
    (discard a >>= k) = (a >>= fun _ => k ()) := by
  rw [discard, map_const, Function.comp_apply, bind_map_left]

/-- The action leaves what `f` shows of the state as it was. -/
def Keeps (f : σ → γ) (a : Act σ α) : Prop := ∀ s, f (a.on s).2 = f s

namespace Keeps

variable {f : σ → γ}

theorem pure (x : α) : Keeps f (Pure.pure x : Act σ α) := fun _ => rfl

theorem throw (e : Failure) : Keeps f (MonadExcept.throw e : Act σ α) := fun _ => rfl

theorem view (g : σ → α) : Keeps f (Act.view g) := fun _ => rfl

theorem result (r : Except Failure α) : Keeps f (Act.result r : Act σ α) := fun _ => rfl

theorem attempt {a : Act σ α} (h : Keeps f a) : Keeps f a.attempt := h

theorem bind {a : Act σ α} {k : α → Act σ β} (ha : Keeps f a) (hk : ∀ x, Keeps f (k x)) :
    Keeps f (a >>= k) := by
  intro s
  have h₁ := ha s
  rw [on_bind]
  revert h₁
  rcases a.on s with ⟨e | x, t⟩ <;> intro h₁
  · exact h₁
  · exact (hk x t).trans h₁

theorem map {a : Act σ α} (h : Keeps f a) (g : α → β) : Keeps f (g <$> a) := by
  intro s
  rw [on_map]
  exact h s

theorem discard {a : Act σ α} (h : Keeps f a) : Keeps f (discard a) := h.map _

theorem rescue {a : Act σ α} (h : Keeps f a) (caught : Failure → Bool) :
    Keeps f (a.rescue caught) := by
  refine bind h.attempt fun r => ?_
  rcases r with e | x
  · cases hc : caught e
    · simp only [hc]; exact throw e
    · simp only [hc]; exact pure _
  · exact pure _

end Keeps

/-- What the action gives, and what `f` shows after it, is settled by what `f` shows before. -/
def DependsOn (f : σ → γ) (a : Act σ α) : Prop :=
  ∀ s t, f s = f t → (a.on s).1 = (a.on t).1 ∧ f (a.on s).2 = f (a.on t).2

namespace DependsOn

variable {f : σ → γ}

theorem pure (x : α) : DependsOn f (Pure.pure x : Act σ α) := fun _ _ h => ⟨rfl, h⟩

theorem throw (e : Failure) : DependsOn f (MonadExcept.throw e : Act σ α) := fun _ _ h => ⟨rfl, h⟩

theorem result (r : Except Failure α) : DependsOn f (Act.result r : Act σ α) :=
  fun _ _ h => ⟨rfl, h⟩

theorem bind {a : Act σ α} {k : α → Act σ β} (ha : DependsOn f a) (hk : ∀ x, DependsOn f (k x)) :
    DependsOn f (a >>= k) := by
  intro s t h
  have h₁ := ha s t h
  rw [on_bind, on_bind]
  revert h₁
  rcases a.on s with ⟨e | x, s₁⟩ <;> rcases a.on t with ⟨e' | x', t₁⟩ <;> rintro ⟨hx, h₁⟩ <;>
    cases hx
  · exact ⟨rfl, h₁⟩
  · exact hk x s₁ t₁ h₁

theorem attempt {a : Act σ α} (h : DependsOn f a) : DependsOn f a.attempt := by
  intro s t hs
  exact ⟨congrArg Except.ok (h s t hs).1, (h s t hs).2⟩

theorem discard {a : Act σ α} (h : DependsOn f a) : DependsOn f (discard a) := by
  intro s t hs
  simp only [on_discard]
  exact ⟨by rw [(h s t hs).1], (h s t hs).2⟩

theorem rescue {a : Act σ α} (h : DependsOn f a) (caught : Failure → Bool) :
    DependsOn f (a.rescue caught) := by
  refine bind h.attempt fun r => ?_
  rcases r with e | x
  · cases hc : caught e
    · simp only [hc]; exact throw e
    · simp only [hc]; exact pure _
  · exact pure _

end DependsOn

/-- The action goes along `Q`, whether it succeeds or not. -/
def Along (Q : σ → σ → Prop) (a : Act σ α) : Prop := ∀ s, Q s (a.on s).2

/-- A sequence goes along a transitive relation that its parts go along. -/
theorem Along.bind {Q : σ → σ → Prop} (hQ : ∀ {s t u}, Q s t → Q t u → Q s u) {a : Act σ α}
    {k : α → Act σ β} (ha : a.Along Q) (hk : ∀ x, (k x).Along Q) : (a >>= k).Along Q := by
  intro s
  have h₁ := ha s
  rw [on_bind]
  revert h₁
  rcases a.on s with ⟨f | x, t⟩ <;> intro h₁
  · exact h₁
  · exact hQ h₁ (hk x t)

/-- Only what the first part may give counts for the second one. -/
theorem Along.bind_of {Q : σ → σ → Prop} (hQ : ∀ {s t u}, Q s t → Q t u → Q s u) {a : Act σ α}
    {k : α → Act σ β} {P : α → Prop} (ha : a.Along Q) (hP : ∀ s x t, a.on s = (.ok x, t) → P x)
    (hk : ∀ x, P x → (k x).Along Q) : (a >>= k).Along Q := by
  intro s
  have h₁ := ha s
  have h₂ := hP s
  rw [on_bind]
  revert h₁ h₂
  rcases a.on s with ⟨f | x, t⟩ <;> intro h₁ h₂
  · exact h₁
  · exact hQ h₁ (hk x (h₂ x t rfl) t)

/-- Catching failures does not add to what an action does. -/
theorem Along.rescue {Q : σ → σ → Prop} {a : Act σ α} (h : a.Along Q) (caught : Failure → Bool) :
    (a.rescue caught).Along Q := by
  intro s
  have hs := h s
  rw [Act.rescue, on_bind, on_attempt]
  revert hs
  rcases a.on s with ⟨f | x, t⟩ <;> intro hs
  · dsimp only
    split <;> exact hs
  · exact hs

/-- The action leaves a property of the state as it was, whether it succeeds or not. -/
abbrev Preserves (P : σ → Prop) (a : Act σ α) : Prop := a.Along fun s t => P s → P t

theorem Preserves.bind {P : σ → Prop} {a : Act σ α} {k : α → Act σ β} (ha : a.Preserves P)
    (hk : ∀ x, (k x).Preserves P) : (a >>= k).Preserves P :=
  Along.bind (Q := fun s t => P s → P t) (fun h₁ h₂ => h₂ ∘ h₁) ha hk

theorem Preserves.bind_of {P : σ → Prop} {Q : α → Prop} {a : Act σ α} {k : α → Act σ β}
    (ha : a.Preserves P) (hQ : ∀ s x t, a.on s = (.ok x, t) → Q x)
    (hk : ∀ x, Q x → (k x).Preserves P) : (a >>= k).Preserves P :=
  Along.bind_of (Q := fun s t => P s → P t) (fun h₁ h₂ => h₂ ∘ h₁) ha hQ hk

theorem Keeps.preserves {f : σ → γ} {a : Act σ α} (h : a.Keeps f) (P : γ → Prop) :
    a.Preserves fun s => P (f s) := fun s hs => (congrArg P (h s)).mpr hs

/-- A loop goes along a transitive relation that every turn goes along. -/
theorem Along.loop {Q : σ → σ → Prop} (hrefl : ∀ s, Q s s)
    (htrans : ∀ {s t u}, Q s t → Q t u → Q s u) {body : α → Act σ PUnit}
    (h : ∀ x, (body x).Along Q) : ∀ xs : List α, Along Q (forIn xs PUnit.unit fun x _ => do
      body x
      Pure.pure (ForInStep.yield PUnit.unit))
  | [] => hrefl
  | x :: xs => by
    rw [List.forIn_cons, bind_assoc]
    refine Along.bind (Q := Q) htrans (h x) fun _ => ?_
    rw [pure_bind]
    exact loop hrefl htrans h xs

theorem Preserves.loop {P : σ → Prop} {body : α → Act σ PUnit} (h : ∀ x, (body x).Preserves P) :
    ∀ xs : List α, Preserves P (forIn xs PUnit.unit fun x _ => do
      body x
      Pure.pure (ForInStep.yield PUnit.unit)) :=
  Along.loop (Q := fun s t => P s → P t) (fun _ => id) (fun h₁ h₂ => h₂ ∘ h₁) h

/-- What a sequence gives is given by its second part after its first. -/
theorem ok_of_on_bind {a : Act σ α} {k : α → Act σ β} {s s' : σ} {b : β}
    (h : (a >>= k).on s = (.ok b, s')) :
    ∃ x t, a.on s = (.ok x, t) ∧ (k x).on t = (.ok b, s') := by
  rw [on_bind] at h
  rcases ha : a.on s with ⟨f | x, t⟩ <;> rw [ha] at h
  · cases h
  · exact ⟨x, t, rfl, h⟩

theorem on_bind_of_ok {a : Act σ α} {k : α → Act σ β} {s t : σ} {x : α}
    (h : a.on s = (.ok x, t)) : (a >>= k).on s = (k x).on t := by rw [on_bind, h]

theorem on_bind_result {r : Except Failure α} {k : α → Act σ β} {s : σ} {x : α}
    (h : r = .ok x) : (result r >>= k).on s = (k x).on s := by rw [on_bind, on_result, h]

/-- A failure is caught or stays. -/
theorem rescue_of_error (caught : Failure → Bool) {a : Act σ α} {s t : σ} {f : Failure}
    (h : a.on s = (.error f, t)) :
    (a.rescue caught).on s = (if caught f then .ok (.error f) else .error f, t) := by
  rw [rescue, on_bind, on_attempt, h]
  dsimp only
  split <;> rfl

theorem rescue_of_ok (caught : Failure → Bool) {a : Act σ α} {s t : σ} {x : α}
    (h : a.on s = (.ok x, t)) : (a.rescue caught).on s = (.ok (.ok x), t) := by
  rw [rescue, on_bind, on_attempt, h]
  rfl

/-- Whether the action succeeds and its value and the state after it pass a test. -/
def succeeds (a : Act σ α) (s : σ) (test : α → σ → Bool) : Bool :=
  match a.on s with
  | (.ok x, t) => test x t
  | (.error _, _) => false

/-- Whether the action fails and its failure and the state after it pass a test. -/
def fails (a : Act σ α) (s : σ) (test : Failure → σ → Bool) : Bool :=
  match a.on s with
  | (.ok _, _) => false
  | (.error f, t) => test f t

theorem of_succeeds {a : Act σ α} {s : σ} {test : α → σ → Bool} (h : a.succeeds s test = true) :
    ∃ x t, a.on s = (.ok x, t) ∧ test x t = true := by
  unfold succeeds at h
  rcases ha : a.on s with ⟨f | x, t⟩ <;> rw [ha] at h
  · cases h
  · exact ⟨x, t, rfl, h⟩

theorem of_fails {a : Act σ α} {s : σ} {test : Failure → σ → Bool} (h : a.fails s test = true) :
    ∃ f t, a.on s = (.error f, t) ∧ test f t = true := by
  unfold fails at h
  rcases ha : a.on s with ⟨f | x, t⟩ <;> rw [ha] at h
  · exact ⟨f, t, rfl, h⟩
  · cases h

theorem filterAuxM_along {Q : σ → σ → Prop} (hrefl : ∀ s, Q s s)
    (htrans : ∀ {s t u}, Q s t → Q t u → Q s u) {test : α → Act σ Bool}
    (htest : ∀ x, (test x).Along Q) : ∀ xs acc : List α, (List.filterAuxM test xs acc).Along Q
  | [], _ => hrefl
  | x :: xs, _ => Along.bind (Q := Q) htrans (htest x) fun _ =>
      filterAuxM_along hrefl htrans htest xs _

/-- The items that a test chooses are those that it would choose in the end, if its answers
stay right along `Q`. -/
theorem filterM_ok {Q : σ → σ → Prop} (hrefl : ∀ s, Q s s)
    (htrans : ∀ {s t u}, Q s t → Q t u → Q s u) {test : α → Act σ Bool} {holds : σ → α → Bool}
    (htest : ∀ x, (test x).Along Q)
    (hanswer : ∀ {x s b t}, (test x).on s = (.ok b, t) → ∀ {u}, Q t u → b = holds u x)
    {xs ys : List α} {s s' : σ} (h : (xs.filterM test).on s = (.ok ys, s')) :
    ys = xs.filter (holds s') := by
  have haux : ∀ {xs acc ys : List α} {s s' : σ},
      (List.filterAuxM test xs acc).on s = (.ok ys, s') →
        ys = (xs.filter (holds s')).reverse ++ acc := by
    intro xs
    induction xs with
    | nil => intro acc ys s s' h; cases h; rfl
    | cons x xs ih =>
      intro acc ys s s' h
      obtain ⟨b, t, hb, h⟩ := ok_of_on_bind h
      have hrest := filterAuxM_along hrefl htrans htest xs (cond b (x :: acc) acc) t
      rw [h] at hrest
      rw [ih h, List.filter_cons, ← hanswer hb hrest]
      cases b with
      | true => simp
      | false => simp
  obtain ⟨zs, t, hz, h⟩ := ok_of_on_bind h
  cases h
  rw [haux hz, List.append_nil, List.reverse_reverse]

end Act

namespace Part

variable {S T α : Type}

@[simp] theorem on_lift (p : Part S T) (a : Act T α) (s : S) :
    (p.lift a).on s = ((a.on (p.get s)).1, p.set (a.on (p.get s)).2 s) := rfl

theorem ok_of_on_lift {p : Part S T} {a : Act T α} {s s' : S} {x : α}
    (h : (p.lift a).on s = (.ok x, s')) :
    ∃ t, a.on (p.get s) = (.ok x, t) ∧ p.set t s = s' := by
  rw [on_lift] at h
  obtain ⟨hx, hs⟩ := Prod.mk.inj h
  exact ⟨_, Prod.ext hx rfl, hs⟩

end Part

/-- A command keeps what running a process keeps. -/
theorem Act.Keeps.command {μ γ : Type} {f : Host μ → γ}
    (hrun : ∀ argv timeout, Act.Keeps f (Host.run argv timeout : Call μ Answer))
    (argv : List Datum) (timeout : Datum) :
    Act.Keeps f (Host.command argv timeout : Call μ ShellResult) := by
  refine bind (hrun argv timeout) fun answer => ?_
  cases answer with
  | ended code stdout stderr =>
    refine bind (result _) fun _ => ?_
    dsimp only
    split
    · exact bind (pure _) fun _ => pure _
    · exact bind (result _) fun _ => pure _
  | timedOut _ | failed _ => exact pure _

/-- The writes on record, in words. -/
def Host.outline {μ : Type} (h : Host μ) : List (Option String) :=
  h.writes.map fun w => w.plan.toOption

/-- What actions in a session work on. -/
structure Core (μ : Type) where
  machine : μ
  disk : Disk
  memory : Memory
  store : Option Snapshot.Store

namespace Session

variable {μ : Type}

/-- The part of a session that later actions work on. -/
def core (s : Session μ) : Core μ := ⟨s.host.machine, s.host.disk, s.memory, s.store⟩

end Session
end TweakEngine
