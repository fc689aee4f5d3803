/-
# Requests to a machine

A machine answers a request or refuses it, and a request that it refuses has no effect.
`ask_answers` and `perform_answers` say so for any machine, whatever it refuses.  A write
that would leave a machine as it is (`Machine.Idle`) does so whether it is carried out or
not, and an action that only asks and issues such writes leaves the machine as it is
(`Engine.Leaves`).
-/

import TweakEngine.Proofs.Actions

namespace TweakEngine

open Session

namespace Machine

/-- What a machine says to a request: its answer, unless it refuses the request. -/
def answer {α : Type} (m : Machine) (r : Request) (x : Except Failure α) : Except Failure α :=
  match m.faults r with
  | some f => .error f
  | none => x

theorem answer_of_none {α : Type} {m : Machine} {r : Request} (h : m.faults r = none)
    (x : Except Failure α) : m.answer r x = x := by rw [answer, h]

/-- What is answered is what the machine says. -/
theorem ok_of_answer {α : Type} {m : Machine} {r : Request} {x : Except Failure α} {a : α}
    (h : m.answer r x = .ok a) : x = .ok a := by
  unfold answer at h
  split at h
  · cases h
  · exact h

/-- Asking a host gives what its machine says, and changes nothing. -/
theorem on_ask {α : Type} (r : Request) (f : Machine → Except Failure α) (h : Host Machine) :
    (ask r f).on h = (h.machine.answer r (f h.machine), h) := by
  simp only [ask, Host.onMachine, Act.on_bind, Part.on_lift, Act.on_view, Host.machinePart, answer]
  cases h.machine.faults r <;> rfl

/-- A write that would leave a machine as it is. -/
def Idle (m : Machine) (w : Write) : Prop := ∀ reply m', m.apply w = .ok (reply, m') → m' = m

end Machine

/-- Where an operation on the registry goes, if it goes anywhere. -/
def Engine.destination (e : Engine Machine) (hive : Hive) (path : Datum) : Hive × Datum :=
  if hive ≠ .currentUser || !e.targetUser.truthy then (hive, path)
  else (.users, .text (e.targetUser.display ++ "\\" ++ path.display))

namespace Engine

/-- Whether an operation on a hive goes to the hive of the target user. -/
def redirects (e : Engine Machine) (hive : Hive) : Bool :=
  hive = .currentUser && e.targetUser.truthy

/-- Where an operation on the registry goes on a machine, as the machine says. -/
def placeOn (e : Engine Machine) (m : Machine) (hive : Hive) (path : Datum) :
    Except Failure (Hive × Datum) :=
  if e.redirects hive then do
    let there ← m.answer (.keyExists .users e.targetUser) (do
      return Assoc.has (.users, ← Machine.folded e.targetUser) m.keys)
    if there then return e.destination hive path
    else throw (.refused "Cannot access original user's registry hive")
  else return e.destination hive path

variable {e : Engine Machine} {s : Session Machine} {w : Write}

/-- Asking gives what the machine says, and changes nothing. -/
theorem ask_answers {α : Type} (r : Request) (f : Machine → Except Failure α) :
    (onHost (Machine.ask r f)).on s = (s.core.machine.answer r (f s.core.machine), s) := by
  rw [onHost, Part.on_lift, Machine.on_ask]
  rfl

/-- Resolving gives what the machine says, and changes nothing. -/
theorem resolve_on (he : e.mutator = Machine.mutator) (hive : Hive) (path : Datum) :
    (onHost (e.resolve hive path)).on s = (e.placeOn s.core.machine hive path, s) := by
  have hkey : e.mutator.keyExists = Machine.keyExists := by rw [he]; rfl
  have hask : (Machine.keyExists .users e.targetUser).on (hostPart.get s) =
      (s.core.machine.answer (.keyExists .users e.targetUser) (do
        return Assoc.has (.users, ← Machine.folded e.targetUser) s.core.machine.keys),
        hostPart.get s) := Machine.on_ask ..
  unfold resolve placeOn destination redirects
  by_cases hh : hive = .currentUser
  · subst hh
    cases e.targetUser.truthy with
    | false => rfl
    | true =>
      simp only [ne_eq, not_true_eq_false, decide_false, Bool.not_true, Bool.or_self,
        Bool.false_eq_true, if_false, decide_true, Bool.and_self, if_true]
      rw [hkey, onHost, Part.on_lift, Act.on_bind, hask]
      rcases Machine.answer .. with f | (_ | _) <;> rfl
  · simp only [ne_eq, hh, not_false_eq_true, decide_true, Bool.true_or, if_true, decide_false,
      Bool.false_and, Bool.false_eq_true, if_false]
    rfl

/-- Where an operation goes is its destination. -/
theorem eq_destination {m : Machine} {hive : Hive} {path : Datum} {place : Hive × Datum}
    (h : e.placeOn m hive path = .ok place) : place = e.destination hive path := by
  unfold placeOn at h
  split at h
  · obtain ⟨b, -, h⟩ := ok_of_bind h
    cases b <;> cases h
    rfl
  · exact (Except.ok.inj h).symm

/-- A write is refused without effect, or changes the machine as the machine says. -/
theorem perform_answers (w : Write) : ∃ s', (onHost (Machine.perform w)).on s =
      (Prod.fst <$> s.core.machine.answer (.write w) (s.core.machine.apply w), s') ∧
    s'.core = { s.core with
      machine := ((Prod.snd <$> s.core.machine.answer (.write w)
        (s.core.machine.apply w)).toOption.getD s.core.machine) } := by
  cases hf : s.core.machine.faults (.write w) with
  | some f =>
    have hf' : s.host.machine.faults (.write w) = some f := hf
    simp only [onHost, Part.on_lift, Machine.perform, Host.onMachine, Act.on_bind, Act.on_view,
      hostPart, Host.machinePart, hf', Machine.answer, hf]
    exact ⟨_, rfl, rfl⟩
  | none =>
    have hf' : s.host.machine.faults (.write w) = none := hf
    simp only [onHost, Part.on_lift, Machine.perform, Host.onMachine, Act.on_bind, Act.on_view,
      hostPart, Host.machinePart, hf', Host.record, Act.on_change, Act.on_of, core,
      Machine.answer]
    cases s.host.machine.apply w with
    | error f => exact ⟨_, rfl, rfl⟩
    | ok x => exact ⟨_, rfl, rfl⟩

/-- What an action makes of the machine `m`, whatever else there is in the session. -/
def Yields {α : Type} (m : Machine) (a : Work Machine α) (Q : Except Failure α → Machine → Prop) :
    Prop :=
  ∀ s, s.core.machine = m → Q (a.on s).1 (a.on s).2.core.machine

namespace Yields

variable {m : Machine} {α β : Type} {Q : Except Failure α → Machine → Prop}

theorem imp {Q' : Except Failure α → Machine → Prop} {a : Work Machine α} (h : Yields m a Q)
    (hQ : ∀ r m', Q r m' → Q' r m') : Yields m a Q' := fun s hs => hQ _ _ (h s hs)

theorem pure {x : α} (h : Q (.ok x) m) : Yields m (Pure.pure x) Q := fun _ hs => hs ▸ h

theorem throw {f : Failure} (h : Q (.error f) m) : Yields m (MonadExcept.throw f) Q :=
  fun _ hs => hs ▸ h

theorem throw_bind {f : Failure} {k : β → Work Machine α} (h : Q (.error f) m) :
    Yields m (MonadExcept.throw f >>= k) Q := fun _ hs => hs ▸ h

/-- One action after the other. -/
theorem bind {a : Work Machine β} {k : β → Work Machine α}
    (h : Yields m a fun r m' =>
      (∀ f, r = .error f → Q (.error f) m') ∧ ∀ x, r = .ok x → Yields m' (k x) Q) :
    Yields m (a >>= k) Q := by
  intro s hs
  obtain ⟨herror, hok⟩ := h s hs
  rw [Act.on_bind]
  revert herror hok
  rcases a.on s with ⟨f | x, t⟩ <;> intro herror hok
  · exact herror f rfl
  · exact hok x rfl t rfl

theorem result_bind {r : Except Failure β} {k : β → Work Machine α}
    (herror : ∀ f, r = .error f → Q (.error f) m) (hok : ∀ x, r = .ok x → Yields m (k x) Q) :
    Yields m (Act.result r >>= k) Q := .bind fun _ hs => hs ▸ ⟨herror, hok⟩

theorem capture_bind {γ : Type} {part : Part (Session Machine) (Captures γ)} {slot : Slot} {c : γ}
    (hpart : ∀ c s, (part.set c s).core.machine = s.core.machine) {k : Bool → Work Machine α}
    (h : ∀ b, Yields m (k b) Q) : Yields m (capture part slot c >>= k) Q :=
  .bind fun s hs => by
    dsimp only [capture, Part.on_lift, Act.on_of]
    rw [hpart, hs]
    exact ⟨nofun, fun x _ => h x⟩

/-- Asking gives what the machine says. -/
theorem answer_bind {r : Request} {f : Machine → Except Failure β} {k : β → Work Machine α}
    (herror : ∀ e, m.answer r (f m) = .error e → Q (.error e) m)
    (hok : ∀ x, m.answer r (f m) = .ok x → Yields m (k x) Q) :
    Yields m (onHost (Machine.ask r f) >>= k) Q :=
  .bind fun s hs => by
    subst hs
    rw [ask_answers]
    exact ⟨herror, hok⟩

/-- Resolving gives what the machine says. -/
theorem resolve_bind (he : e.mutator = Machine.mutator) {hive : Hive} {path : Datum}
    {k : Hive × Datum → Work Machine α}
    (herror : ∀ f, e.placeOn m hive path = .error f → Q (.error f) m)
    (hok : ∀ place, e.placeOn m hive path = .ok place → Yields m (k place) Q) :
    Yields m (onHost (e.resolve hive path) >>= k) Q :=
  .bind fun s hs => by
    subst hs
    rw [resolve_on he]
    exact ⟨herror, hok⟩

end Yields

/-- The action leaves the machine `m` as it is. -/
def Leaves (m : Machine) {α : Type} (a : Work Machine α) : Prop := Yields m a fun _ m' => m' = m

namespace Leaves

variable {m : Machine} {α β : Type}

theorem pure (x : α) : Leaves m (Pure.pure x : Work Machine α) := Yields.pure rfl

theorem throw_bind (f : Failure) (k : α → Work Machine β) :
    Leaves m (MonadExcept.throw f >>= k) := Yields.throw_bind rfl

theorem bind {a : Work Machine α} {k : α → Work Machine β} (ha : Leaves m a)
    (hk : ∀ x, Leaves m (k x)) : Leaves m (a >>= k) :=
  Yields.bind (ha.imp fun _ _ h => ⟨fun _ _ => h, fun x _ => h ▸ hk x⟩)

theorem discard {a : Work Machine α} (ha : Leaves m a) : Leaves m (discard a) := by
  intro s hs
  rw [Act.on_discard]
  exact ha s hs

theorem release (part : Part (Session Machine) (Captures α)) (slot : Slot)
    (hpart : ∀ c s, (part.set c s).core.machine = s.core.machine) :
    Leaves m (release part slot) := fun _ hs => (hpart _ _).trans hs

/-- Asking leaves the machine as it is, and gives what `m` says. -/
theorem ask_bind {r : Request} {f : Machine → Except Failure α} {k : α → Work Machine β}
    (hk : ∀ x, f m = .ok x → Leaves m (k x)) : Leaves m (onHost (Machine.ask r f) >>= k) :=
  Yields.answer_bind (fun _ _ => rfl) fun x hx => hk x (Machine.ok_of_answer hx)

/-- Resolving leaves the machine as it is, and gives the destination. -/
theorem resolve_bind (he : e.mutator = Machine.mutator) {hive : Hive}
    {path : Datum} {k : Hive × Datum → Work Machine α} (hk : Leaves m (k (e.destination hive path))) :
    Leaves m (onHost (e.resolve hive path) >>= k) :=
  Yields.resolve_bind he (fun _ _ => rfl) fun _ hplace => eq_destination hplace ▸ hk

/-- A write that would leave `m` as it is. -/
theorem write (he : e.mutator = Machine.mutator) (hw : m.Idle w) : Leaves m (e.write w) := by
  have hperform : e.write w = onHost (Machine.perform w) := by rw [Engine.write, he]; rfl
  intro s hs
  obtain ⟨s', hs', hcore⟩ := perform_answers (s := s) w
  rw [hperform, hs', hcore]
  subst hs
  cases ha : s.core.machine.answer (.write w) (s.core.machine.apply w) with
  | error f => rfl
  | ok x => exact hw _ _ (Machine.ok_of_answer ha)

end Leaves
end Engine
end TweakEngine
