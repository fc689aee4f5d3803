/-
# Actions on a state

An action changes a state and gives a value or a failure; what was changed before a
failure stays changed.  An action on a part of a larger state is an action on the whole
(`Part.lift`).
-/

import TweakEngine.Failure

namespace TweakEngine

/-- An action on a state that may fail. -/
abbrev Act (σ : Type) := ExceptT Failure (StateM σ)

namespace Act

variable {σ α : Type}

/-- What an action gives, and the state that it leaves. -/
def on (a : Act σ α) (s : σ) : Except Failure α × σ := StateT.run (ExceptT.run a) s

/-- The action with given results. -/
def of (f : σ → Except Failure α × σ) : Act σ α := ExceptT.mk f

/-- A value of the state. -/
def view (f : σ → α) : Act σ α := of fun s => (.ok (f s), s)

/-- Changes the state. -/
def change (f : σ → σ) : Act σ Unit := of fun s => (.ok (), f s)

/-- A result that does not depend on the state. -/
def result (r : Except Failure α) : Act σ α := of fun s => (r, s)

/-- Gives the failure of an action as a value. -/
def attempt (a : Act σ α) : Act σ (Except Failure α) := of fun s =>
  let (r, s) := a.on s
  (.ok r, s)

/-- Lets failures of one sort pass into a value; the others stay failures. -/
def rescue (caught : Failure → Bool) (a : Act σ α) : Act σ (Except Failure α) := do
  match ← a.attempt with
  | .ok x => return .ok x
  | .error f => if caught f then return .error f else throw f

@[simp] theorem on_of (f : σ → Except Failure α × σ) (s : σ) : (of f).on s = f s := rfl

@[simp] theorem on_pure (x : α) (s : σ) : (pure x : Act σ α).on s = (.ok x, s) := rfl

@[simp] theorem on_throw (f : Failure) (s : σ) : (throw f : Act σ α).on s = (.error f, s) := rfl

theorem on_bind {β : Type} (a : Act σ α) (k : α → Act σ β) (s : σ) :
    (a >>= k).on s = match a.on s with
      | (.ok x, s) => (k x).on s
      | (.error f, s) => (.error f, s) := by
  simp only [on, bind, ExceptT.bind, ExceptT.mk, ExceptT.run, StateT.run, StateT.bind]
  rcases a s with ⟨r, t⟩
  cases r <;> rfl

end Act

/-- A part of a larger state. -/
structure Part (S T : Type) where
  get : S → T
  set : T → S → S

namespace Part

variable {S T U α : Type}

/-- The whole as a part of itself. -/
def whole : Part S S := ⟨id, fun s _ => s⟩

/-- A part of a part. -/
def inside (p : Part S T) (q : Part T U) : Part S U :=
  ⟨q.get ∘ p.get, fun u s => p.set (q.set u (p.get s)) s⟩

/-- An action on a part as an action on the whole. -/
def lift (p : Part S T) (a : Act T α) : Act S α := Act.of fun s =>
  let (r, t) := a.on (p.get s)
  (r, p.set t s)

/-- A test of the whole, seen from the part while the rest stays as it is. -/
def seen (p : Part S T) (test : S → Bool) (s : S) : T → Bool := fun t => test (p.set t s)

end Part
end TweakEngine
