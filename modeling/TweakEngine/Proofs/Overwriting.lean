/-
# Overwriting

An overwriting gives some spots new contents, whatever stood there, and leaves the others
alone (`Overwrite`).  A guarded one is carried out only while a gate is open, and one that
does not proceed ends the run.  The gate is a spot itself, which overwritings open and close.

Running a list of overwritings again changes nothing, unless the first run opens the gate
(`Overwrite.run_run`).  Every spot holds what the last overwriting of it has put there, and
the second run puts it there again.  The two runs part ways only at guarded overwritings, when
the first run has closed a gate that it found open.  These stay behind the gate, and
whatever closes the gate overwrites all that is behind it, so that the difference does not
last; `Catching` is the invariant that says so of two runs side by side.
-/

import Mathlib.Data.Option.Basic
import Mathlib.Tactic.ByContra

namespace TweakEngine

variable {ι : Type} {β : ι → Type}

/-- A spot that guards others: those behind it. -/
structure Gate (β : ι → Type) where
  spot : ι
  opens : β spot → Bool
  behind : ι → Prop
  before : ¬behind spot

/-- Whether a gate is open. -/
def Gate.isOpen (g : Gate β) (v : (x : ι) → β x) : Bool := g.opens (v g.spot)

/-- New contents for some spots. -/
structure Overwrite (β : ι → Type) where
  /-- The new contents of the spots that are overwritten. -/
  sets : (x : ι) → Option (β x)
  guarded : Bool := false
  /-- Whether the run goes on when the overwriting has been carried out. -/
  proceeds : Bool := true

namespace Overwrite

variable (g : Gate β) (a : Overwrite β) (v : (x : ι) → β x)

/-- Whether an overwriting is carried out. -/
def acts : Bool := !a.guarded || g.isOpen v

/-- The contents after an overwriting. -/
def after (x : ι) : β x := if a.acts g v then (a.sets x).getD (v x) else v x

/-- Whether the run goes on after an overwriting. -/
def continues : Bool := !a.acts g v || a.proceeds

/-- The contents after a run of overwritings. -/
def run (g : Gate β) : List (Overwrite β) → ((x : ι) → β x) → (x : ι) → β x
  | [], v => v
  | a :: as, v => if a.continues g v then run g as (a.after g v) else a.after g v

/-- A guarded overwriting stays behind the gate, and one that closes the gate overwrites all
that is behind it. -/
structure Respects : Prop where
  within : a.guarded = true → ∀ x, a.sets x ≠ none → g.behind x
  closes : ∀ b, a.sets g.spot = some b → g.opens b = false → ∀ x, g.behind x → a.sets x ≠ none

end Overwrite

variable {g : Gate β} {a : Overwrite β} {as : List (Overwrite β)}
  {v w start goal : (x : ι) → β x} {x : ι}

namespace Overwrite

theorem after_of_acts (h : a.acts g v = true) : a.after g v x = (a.sets x).getD (v x) := by
  rw [after, if_pos h]

theorem after_of_rests (h : a.acts g v = false) : a.after g v x = v x := by
  rw [after, h]
  rfl

/-- An overwriting that leaves something behind an open gate alone leaves the gate open. -/
theorem Respects.isOpen_after (h : a.Respects g) (hx : g.behind x) (hsets : a.sets x = none)
    (hopen : g.isOpen v = true) : g.isOpen (a.after g v) = true := by
  cases hact : a.acts g v with
  | false => rw [Gate.isOpen, after_of_rests hact]; exact hopen
  | true =>
    rw [Gate.isOpen, after_of_acts hact]
    cases hb : a.sets g.spot with
    | none => exact hopen
    | some b =>
      cases hc : g.opens b with
      | true => exact hc
      | false => exact absurd hsets (h.closes b hb hc x hx)

/-- A guarded overwriting leaves the gate alone. -/
theorem Respects.isOpen_guarded (h : a.Respects g) (hg : a.guarded = true) :
    g.isOpen (a.after g v) = g.isOpen v := by
  have hspot : a.sets g.spot = none := by
    by_contra hne
    exact g.before (h.within hg _ hne)
  rw [Gate.isOpen, after, hspot]
  split <;> rfl

end Overwrite

/-- How the contents `w` of the second run stand to the contents `v` that the first run had at
the same place.  A spot is level, or holds already what the first run will leave there and has
not come to yet, or lies behind the open gate that the first run will close. -/
def Catching (g : Gate β) (start goal v w : (x : ι) → β x) (x : ι) : Prop :=
  (g.behind x ∧ g.isOpen v = true ∧ g.isOpen goal = false) ∨ w x = v x ∨
    (w x = goal x ∧ v x = start x)

namespace Catching

/-- At the end of the first run everything is level. -/
theorem level (h : Catching g start goal goal w x) : w x = goal x := by
  rcases h with ⟨-, hopen, hclosed⟩ | h | h
  · rw [hopen] at hclosed
    cases hclosed
  · exact h
  · exact h.1

/-- The gate of the second run is as the first run has it, unless the first run will close it. -/
theorem gate (hgate : g.isOpen goal = true → g.isOpen start = true)
    (h : Catching g start goal v w g.spot) :
    g.isOpen w = g.isOpen v ∨
      (g.isOpen v = true ∧ g.isOpen w = false ∧ g.isOpen goal = false) := by
  rcases h with h | h | ⟨hw, hv⟩
  · exact absurd h.1 g.before
  · exact .inl (by rw [Gate.isOpen, Gate.isOpen, h])
  · have hw : g.isOpen w = g.isOpen goal := by rw [Gate.isOpen, Gate.isOpen, hw]
    have hv : g.isOpen v = g.isOpen start := by rw [Gate.isOpen, Gate.isOpen, hv]
    rw [hw, hv]
    cases hgoal : g.isOpen goal with
    | true => exact .inl (hgate hgoal).symm
    | false =>
      cases hstart : g.isOpen start with
      | true => exact .inr ⟨rfl, rfl, rfl⟩
      | false => exact .inl rfl

/-- An overwriting that both runs carry out, or that neither does. -/
theorem both (h : Catching g start goal v w x) (ha : a.Respects g)
    (hact : a.acts g w = a.acts g v) : Catching g start goal (a.after g v) (a.after g w) x := by
  by_cases hset : a.acts g v = true ∧ a.sets x ≠ none
  · obtain ⟨hv, hx⟩ := hset
    obtain ⟨b, hb⟩ := Option.ne_none_iff_exists'.mp hx
    refine .inr (.inl ?_)
    rw [Overwrite.after_of_acts hv, Overwrite.after_of_acts (hact.trans hv), hb]
    rfl
  · have hsame : ∀ u, a.acts g u = a.acts g v → a.after g u x = u x := by
      intro u hu
      cases hv : a.acts g v with
      | false => exact Overwrite.after_of_rests (hu.trans hv)
      | true =>
        have hx : a.sets x = none := by
          by_contra hne
          exact hset ⟨hv, hne⟩
        rw [Overwrite.after_of_acts (hu.trans hv), hx]
        rfl
    rw [Catching, hsame v rfl, hsame w hact]
    refine h.imp_left fun ⟨hx, hopen, hgoal⟩ => ⟨hx, ?_, hgoal⟩
    cases hv : a.acts g v with
    | false => rw [Gate.isOpen, Overwrite.after_of_rests hv]; exact hopen
    | true =>
      refine ha.isOpen_after hx ?_ hopen
      by_contra hne
      exact hset ⟨hv, hne⟩

/-- A guarded overwriting that only the first run carries out. -/
theorem first (h : Catching g start goal v w x) (ha : a.Respects g) (hg : a.guarded = true)
    (hv : g.isOpen v = true) (hw : g.isOpen w = false) (hgoal : g.isOpen goal = false) :
    Catching g start goal (a.after g v) (a.after g w) x := by
  have hact : a.acts g w = false := by rw [Overwrite.acts, hg, hw]; rfl
  rw [Catching, ha.isOpen_guarded hg, Overwrite.after_of_rests hact]
  cases hx : a.sets x with
  | some b => exact .inl ⟨ha.within hg x (by rw [hx]; exact nofun), hv, hgoal⟩
  | none =>
    have hsame : a.after g v x = v x := by
      rw [Overwrite.after, hx]
      split <;> rfl
    rw [hsame]
    exact h

end Catching

/-- The second run ends where the first one ends. -/
theorem Catching.run (hrespects : ∀ a ∈ as, a.Respects g)
    (hgate : g.isOpen goal = true → g.isOpen start = true) (hgoal : Overwrite.run g as v = goal)
    (h : ∀ x, Catching g start goal v w x) : Overwrite.run g as w = goal := by
  induction as generalizing v w with
  | nil =>
    obtain rfl : v = goal := hgoal
    exact funext fun x => (h x).level
  | cons a as ih =>
    have ha := hrespects a List.mem_cons_self
    have hrest := fun b hb => hrespects b (List.mem_cons_of_mem a hb)
    rw [Overwrite.run] at hgoal ⊢
    by_cases hact : a.acts g w = a.acts g v
    · have hnext := fun x => (h x).both ha hact
      rw [Overwrite.continues, hact, ← Overwrite.continues]
      cases hc : a.continues g v with
      | true =>
        rw [hc, if_pos rfl] at hgoal
        exact ih hrest hgoal hnext
      | false =>
        rw [hc] at hgoal
        subst hgoal
        exact funext fun x => (hnext x).level
    · -- the runs part ways: the first one will close the gate
      have hg : a.guarded = true := by
        cases hg : a.guarded with
        | true => rfl
        | false => exact absurd (by rw [Overwrite.acts, Overwrite.acts, hg]; rfl) hact
      have hdiffers : g.isOpen w ≠ g.isOpen v :=
        fun e => hact (by rw [Overwrite.acts, Overwrite.acts, e])
      obtain ⟨hv, hw, hclosed⟩ := ((h g.spot).gate hgate).resolve_left hdiffers
      have hnext := fun x => (h x).first ha hg hv hw hclosed
      have hcontinues : a.continues g w = true := by
        rw [Overwrite.continues, Overwrite.acts, hg, hw]
        rfl
      rw [hcontinues, if_pos rfl]
      split at hgoal
      · exact ih hrest hgoal hnext
      · -- the gate stays open, so the run does not end here
        rw [← hgoal, ha.isOpen_guarded hg, hv] at hclosed
        cases hclosed

/-- **Running overwritings twice is running them once**, unless the first run opens the gate. -/
theorem Overwrite.run_run (hrespects : ∀ a ∈ as, a.Respects g)
    (hgate : g.isOpen (run g as v) = true → g.isOpen v = true) :
    run g as (run g as v) = run g as v :=
  Catching.run hrespects hgate rfl fun _ => .inr (.inr ⟨rfl, rfl⟩)

end TweakEngine
