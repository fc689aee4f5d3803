/-
# Notes of originals

A system is a function from targets to contents, and numbered operations change it,
each at most one target.  An operation notes what its target holds before it changes
it for the first time, and the note is struck out when it has been put back.  Later
operations on the same target note intermediate contents, so most notes are wrong
about the original; `Originals` says which ones are right: a target without any note
still holds its original, and the lowest note of a target brings its original back.

`Originals.note`, `Originals.write`, `Originals.heal` and `Originals.release` say that
noting, changing, restoring by another way, and putting back keep this, and
`Originals.restored` that without notes everything is as it was.
-/

namespace TweakEngine

section

variable {τ V C : Type} {target : Nat → Option τ} {brings : C → V → Prop}
  {orig cur cur' : τ → V} {noted noted' : Nat → Option C} {i : Nat} {x : τ} {c : C}

/-- What notes know of the original contents: `target` says what the operation at a
position changes, `brings` which content a note brings back. -/
structure Originals (target : Nat → Option τ) (brings : C → V → Prop) (orig cur : τ → V)
    (noted : Nat → Option C) : Prop where
  /-- A target without notes holds its original. -/
  untouched : ∀ x, (∀ i, target i = some x → noted i = none) → cur x = orig x
  /-- The lowest note of a target brings its original back. -/
  first : ∀ x i c, target i = some x → noted i = some c →
    (∀ j < i, target j = some x → noted j = none) → brings c (orig x)

/-- Of the operations on one target the lower ones are noted before the higher ones. -/
def NoGaps (target : Nat → Option τ) (noted : Nat → Option C) : Prop :=
  ∀ x j i, j < i → target j = some x → target i = some x → noted j = none → noted i = none

namespace Originals

/-- Without notes, the present state is the original one. -/
theorem refl (h : ∀ i, noted i = none) : Originals target brings orig orig noted :=
  ⟨fun _ _ => rfl, fun _ i c _ hc _ => by rw [h i] at hc; cases hc⟩

/-- Without notes everything is as it was. -/
theorem restored (h : Originals target brings orig cur noted) (hn : ∀ i, noted i = none) :
    cur = orig :=
  funext fun x => h.untouched x fun i _ => hn i

/-- Notes of operations without a target do not matter. -/
theorem congr (h : Originals target brings orig cur noted)
    (same : ∀ j x, target j = some x → noted' j = noted j) :
    Originals target brings orig cur noted' := by
  refine ⟨fun x hx => h.untouched x fun j hj => ?_, fun x j c hj hc hlow => ?_⟩
  · rw [← same j x hj]
    exact hx j hj
  · refine h.first x j c hj (by rw [← same j x hj]; exact hc) fun k hk hkx => ?_
    rw [← same k x hkx]
    exact hlow k hk hkx

/-- **Noting keeps the originals.**  A new note brings back the present content of its
target when that is the original, and all lower operations on the target are noted
already: either one of them knows the original, or nothing has touched the target yet. -/
theorem note (h : Originals target brings orig cur noted) (gaps : NoGaps target noted)
    (hi : target i = some x) (hfree : noted i = none)
    (lower : ∀ j < i, target j = some x → noted j ≠ none) (hc : cur x = orig x → brings c (cur x))
    (new : noted' i = some c) (same : ∀ j, j ≠ i → noted' j = noted j) :
    Originals target brings orig cur noted' := by
  refine ⟨fun y hy => h.untouched y fun j hj => ?_, fun y j d hj hd hlow => ?_⟩
  · by_cases hji : j = i
    · rw [hji]; exact hfree
    · rw [← same j hji]; exact hy j hj
  · by_cases hji : j = i
    · subst hji
      rw [new] at hd
      obtain rfl := Option.some.inj hd
      obtain rfl : x = y := Option.some.inj (hi.symm.trans hj)
      -- nothing below is noted, so nothing at all is noted for the target
      have hfirst : ∀ k < j, target k ≠ some x := fun k hk hkx =>
        lower k hk hkx (by rw [← same k (Nat.ne_of_lt hk)]; exact hlow k hk hkx)
      have hcur : cur x = orig x := h.untouched x fun k hk => by
        rcases Nat.lt_trichotomy k j with hlt | rfl | hgt
        · exact absurd hk (hfirst k hlt)
        · exact hfree
        · exact gaps x j k hgt hi hk hfree
      rw [← hcur]
      exact hc hcur
    · refine h.first y j d hj (by rw [← same j hji]; exact hd) fun k hk hky => ?_
      by_cases hki : k = i
      · rw [hki]; exact hfree
      · rw [← same k hki]; exact hlow k hk hky

/-- Changing a target that has a note keeps the originals. -/
theorem write (h : Originals target brings orig cur noted) (hi : target i = some x)
    (hn : noted i ≠ none) (frame : ∀ y, y ≠ x → cur' y = cur y) :
    Originals target brings orig cur' noted := by
  refine ⟨fun y hy => ?_, h.first⟩
  have hyx : y ≠ x := fun e => hn (hy i (e ▸ hi))
  rw [frame y hyx]
  exact h.untouched y hy

/-- A change that leaves targets alone or brings their originals back keeps the originals. -/
theorem heal (h : Originals target brings orig cur noted)
    (hcur : ∀ y, cur' y = cur y ∨ cur' y = orig y) :
    Originals target brings orig cur' noted := by
  refine ⟨fun y hy => ?_, h.first⟩
  rcases hcur y with e | e
  · rw [e]; exact h.untouched y hy
  · exact e

/-- **Striking out the highest note keeps the originals**, once its target holds what the
note brings back. -/
theorem release (h : Originals target brings orig cur noted) (hi : target i = some x)
    (hn : noted i = some c) (higher : ∀ j, i < j → target j = some x → noted j = none)
    (back : ∀ v, brings c v → cur x = v) (gone : noted' i = none)
    (same : ∀ j, j ≠ i → noted' j = noted j) :
    Originals target brings orig cur noted' := by
  refine ⟨fun y hy => ?_, fun y j d hj hd hlow => ?_⟩
  · by_cases hyx : y = x
    · subst hyx
      refine back _ (h.first y i c hi hn fun j hj hjy => ?_)
      rw [← same j (Nat.ne_of_lt hj)]
      exact hy j hjy
    · refine h.untouched y fun j hj => ?_
      have hji : j ≠ i := fun e => hyx (Option.some.inj ((e ▸ hj).symm.trans hi))
      rw [← same j hji]
      exact hy j hj
  · have hji : j ≠ i := fun e => by rw [e, gone] at hd; cases hd
    rw [same j hji] at hd
    refine h.first y j d hj hd fun k hk hky => ?_
    by_cases hki : k = i
    · -- the released note was the highest, so `j` would be struck out as well
      subst hki
      obtain rfl : x = y := Option.some.inj (hi.symm.trans hky)
      rw [higher j hk hj] at hd
      cases hd
    · rw [← same k hki]
      exact hlow k hk hky

end Originals

namespace NoGaps

/-- Noting an operation above its noted lower ones leaves no gaps. -/
theorem note (h : NoGaps target noted)
    (lower : ∀ j x, j < i → target j = some x → target i = some x → noted j ≠ none)
    (new : noted' i = some c) (same : ∀ j, j ≠ i → noted' j = noted j) :
    NoGaps target noted' := by
  intro y j k hjk hj hk hfree
  have hji : j ≠ i := fun e => by rw [e, new] at hfree; cases hfree
  rw [same j hji] at hfree
  by_cases hki : k = i
  · exact absurd hfree (lower j y (hki ▸ hjk) hj (hki ▸ hk))
  · rw [same k hki]
    exact h y j k hjk hj hk hfree

/-- Striking out the highest note of a target leaves no gaps. -/
theorem release (h : NoGaps target noted)
    (higher : ∀ j x, i < j → target j = some x → target i = some x → noted j = none)
    (gone : noted' i = none) (same : ∀ j, j ≠ i → noted' j = noted j) :
    NoGaps target noted' := by
  intro y j k hjk hj hk hfree
  by_cases hki : k = i
  · rw [hki]; exact gone
  · rw [same k hki]
    by_cases hji : j = i
    · exact higher k y (hji ▸ hjk) hk (hji ▸ hj)
    · rw [same j hji] at hfree
      exact h y j k hjk hj hk hfree

end NoGaps

/-- Without a note at a position and from the next one on. -/
theorem none_from (hi : noted i = none) (h : ∀ j ≥ i + 1, noted j = none) :
    ∀ j ≥ i, noted j = none := fun j hj => by
  rcases Nat.eq_or_lt_of_le hj with rfl | hlt
  · exact hi
  · exact h j hlt

/-! Keeping a note: one that is there stays, and otherwise there is a new one. -/

section

variable (now : ∀ j, noted' j = if j = i then some ((noted i).getD c) else noted j)
include now

theorem keep_cases :
    noted' = noted ∨ noted i = none ∧ noted' i = some c ∧ ∀ j, j ≠ i → noted' j = noted j := by
  have same : ∀ j, j ≠ i → noted' j = noted j := fun j hj => by rw [now, if_neg hj]
  cases hi : noted i with
  | none => exact .inr ⟨rfl, by rw [now, if_pos rfl, hi]; rfl, same⟩
  | some d =>
    refine .inl (funext fun j => ?_)
    by_cases hj : j = i
    · rw [now, if_pos hj, hj, hi]
      rfl
    · exact same j hj

theorem keep_ne_none {j : Nat} (h : noted j ≠ none ∨ j = i) : noted' j ≠ none := by
  rw [now]
  split
  · exact Option.some_ne_none _
  · next hj => exact h.resolve_right hj

end
end
end TweakEngine
