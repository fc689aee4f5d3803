/-
# Rules in another order

A failure in one rule keeps the rules after it from being asked at all.  So the same rules in
another order are not asked the same, and yet a tweak gets the same verdict: when the detector is
steady, a list of rules fails in every order or has the same outcomes in each (`mapM_perm`).

What matches does not depend on the order of the outcomes.  The highest grade does not either, but
the mean of doubles does, by what rounding makes of it.  Grades are combined the same way over any
numbers (`Detector.confidenceOver`), and over fractions the mean is as good as the highest grade.
-/

import Mathlib.Data.List.Perm.Basic
import Mathlib.Order.Lattice
import TweakEngine.Proofs.RuleRuns
import TweakEngine.Proofs.SteadyAnswers

namespace TweakEngine

variable {μ α β γ : Type}

/-! ## Results in another order -/

/-- A list has results when each item has the result at its place. -/
theorem mapM_eq_ok_iff {f : α → Except Failure β} : ∀ {xs : List α} {ys : List β},
    xs.mapM f = .ok ys ↔ List.Forall₂ (fun x y => f x = .ok y) xs ys
  | [], ys => by
    rw [List.mapM_nil, List.forall₂_nil_left_iff]
    exact ⟨fun h => (Except.ok.inj h).symm, fun h => h ▸ rfl⟩
  | x :: xs, ys => by
    rw [List.mapM_cons]
    constructor
    · intro h
      obtain ⟨y, hy, h⟩ := ok_of_bind h
      obtain ⟨ys', hys, h⟩ := ok_of_bind h
      cases h
      exact .cons hy (mapM_eq_ok_iff.mp hys)
    · rintro (_ | ⟨hy, hys⟩)
      rw [hy, ok_bind, mapM_eq_ok_iff.mpr hys]
      rfl

theorem mapM_ok_of_perm {f : α → Except Failure β} {xs xs' : List α} {ys : List β}
    (hperm : xs.Perm xs') (h : xs.mapM f = .ok ys) :
    ∃ ys', xs'.mapM f = .ok ys' ∧ ys'.Perm ys := by
  obtain ⟨ys', hys, hperm'⟩ := List.perm_comp_forall₂ hperm.symm (mapM_eq_ok_iff.mp h)
  exact ⟨ys', mapM_eq_ok_iff.mpr hys, hperm'⟩

/-- **In another order** a list has the same results, in another order, or fails as well. -/
theorem mapM_perm {f : α → Except Failure β} {xs xs' : List α} (hperm : xs.Perm xs') :
    (∃ ys ys', xs.mapM f = .ok ys ∧ xs'.mapM f = .ok ys' ∧ ys'.Perm ys) ∨
      ∃ e e', xs.mapM f = .error e ∧ xs'.mapM f = .error e' := by
  cases h : xs.mapM f with
  | ok ys =>
    obtain ⟨ys', h', hperm'⟩ := mapM_ok_of_perm hperm h
    exact .inl ⟨ys, ys', rfl, h', hperm'⟩
  | error e =>
    cases h' : xs'.mapM f with
    | ok ys' =>
      obtain ⟨ys, hys, -⟩ := mapM_ok_of_perm hperm.symm h'
      cases h.symm.trans hys
    | error e' => exact .inr ⟨e, e', rfl, rfl⟩

/-! ## Grades as fractions -/

instance : Graded ℚ where
  zero := 0
  add a b := a + b
  share a n := a / n
  below a b := decide (a < b)

/-- The fraction that a number is. -/
def Number.exact : Number → ℚ
  | .int n => n
  | .float x => Decimal.exact x

theorem Number.IsProper.below {a b : Number} (ha : a.IsProper) (hb : b.IsProper) :
    Graded.below a b = Graded.below a.exact b.exact := by
  obtain ⟨x, rfl, hx⟩ := ha
  obtain ⟨y, rfl, hy⟩ := hb
  exact decide_eq_decide.mpr (Decimal.lt_iff_exact_lt hx hy)

namespace Outcome

theorem max?_eq_highest (a : ℚ) (as : List ℚ) : (a :: as).max? = some (highest a as) := by
  have hmax : (fun best a : ℚ => if Graded.below best a then a else best) = max := by
    funext b c
    rw [max_def_lt]
    exact if_congr decide_eq_true_iff rfl rfl
  rw [highest, hmax, List.max?_cons']

theorem highest_perm {a a' : ℚ} {as as' : List ℚ} (h : (a' :: as').Perm (a :: as)) :
    highest a' as' = highest a as := by
  obtain ⟨hmem, hle⟩ := List.max?_eq_some_iff.mp (max?_eq_highest a as)
  have hmax : (a' :: as').max? = some (highest a as) :=
    List.max?_eq_some_iff.mpr ⟨h.mem_iff.mpr hmem, fun b hb => hle b (h.mem_iff.mp hb)⟩
  exact Option.some.inj ((max?_eq_highest a' as').symm.trans hmax)

theorem total_perm {as as' : List ℚ} (h : as'.Perm as) : total as' = total as :=
  h.foldl_eq' (fun x _ y _ z => add_right_comm z x y) 0

/-- The highest of proper grades is the highest fraction. -/
theorem exact_highest {a : Number} {as : List Number} (h : ∀ b ∈ a :: as, b.IsProper) :
    (highest a as).exact = highest a.exact (as.map Number.exact) := by
  induction as generalizing a with
  | nil => rfl
  | cons c as ih =>
    have ha := h a List.mem_cons_self
    have hc := h c (List.mem_cons_of_mem _ List.mem_cons_self)
    have has : ∀ b ∈ as, b.IsProper := fun b hb =>
      h b (List.mem_cons_of_mem _ (List.mem_cons_of_mem _ hb))
    rw [List.map_cons, highest, highest, List.foldl_cons, List.foldl_cons, ← ha.below hc]
    split
    · exact ih (List.forall_mem_cons.mpr ⟨hc, has⟩)
    · exact ih (List.forall_mem_cons.mpr ⟨ha, has⟩)

/-- An outcome with a grade of another sort. -/
def regrade (grade : α → β) (o : Outcome α) : Outcome β :=
  ⟨o.matched, grade o.confidence, o.message⟩

/-- Outcomes in another order match together as before. -/
theorem matched_perm [Graded α] (logic : Logic) {os os' : List (Outcome α)} (h : os'.Perm os) :
    (combine logic os').matched = (combine logic os).matched := by
  by_cases hne : os = []
  · subst hne
    rw [h.eq_nil]
  · have hne' : os' ≠ [] := fun hnil => hne (hnil ▸ h).symm.eq_nil
    rw [combine_matched logic hne, combine_matched logic hne', h.any_eq, h.all_eq]

/-- **Over fractions** outcomes in another order have the same grade together. -/
theorem confidence_perm (logic : Logic) {os os' : List (Outcome ℚ)} (h : os'.Perm os) :
    (combine logic os').confidence = (combine logic os).confidence := by
  have hgrades := h.map Outcome.confidence
  rcases os with _ | ⟨o, os⟩ <;> rcases os' with _ | ⟨o', os'⟩
  · rfl
  · cases h.eq_nil
  · cases h.symm.eq_nil
  · cases logic with
    | any => exact highest_perm hgrades
    | all | custom =>
      dsimp only [combine]
      rw [total_perm hgrades, h.length_eq]

/-- Where any match will do, combining doubles is exact. -/
theorem exact_combine_any {os : List (Outcome Number)} (h : ∀ o ∈ os, o.confidence.IsProper) :
    (combine .any os).confidence.exact =
      (combine .any (os.map (regrade Number.exact))).confidence := by
  cases os with
  | nil =>
    have hzero : Decimal.Parts.ofFloat 0 = .finite false 0 (-1074) false := by decide +kernel
    show Decimal.exact 0 = 0
    rw [Decimal.exact, hzero, Decimal.value_zero]
  | cons o os =>
    have hgrades : ∀ b ∈ o.confidence :: os.map Outcome.confidence, b.IsProper := fun b hb => by
      obtain ⟨o', ho', rfl⟩ := List.mem_map.mp (List.map_cons ▸ hb)
      exact h o' ho'
    calc (combine .any (o :: os)).confidence.exact
        = (highest o.confidence (os.map Outcome.confidence)).exact := rfl
      _ = highest o.confidence.exact ((os.map Outcome.confidence).map Number.exact) :=
        exact_highest hgrades
      _ = highest o.confidence.exact ((os.map (regrade Number.exact)).map Outcome.confidence) := by
        rw [List.map_map, List.map_map]
        rfl

theorem map_regrade_id (os : List (Outcome Number)) : os.map (regrade id) = os := List.map_id os

end Outcome

/-! ## The verdict -/

/-- The same rule set, but for the order of its rules. -/
structure RuleSet.Reordered (rs rs' : RuleSet) : Prop where
  perm : rs'.rules.Perm rs.rules
  rest : rs' = { rs with rules := rs'.rules }

namespace Detector

open Detection

variable {d : Detector μ} {view : Host μ → γ} {t : Tweak} {rs rs' : RuleSet} {h h' : Host μ}

/-- The outcomes that the status of a tweak with rules is combined of, if it is combined of any. -/
def outcomes? (d : Detector μ) (t : Tweak) (rs : RuleSet) (h : Host μ) :
    Option (List (Outcome Number)) :=
  if (Assoc.get? t.key d.wellKnown).isSome || rs.rules.isEmpty then none
  else ((rs.rules.mapM d.evaluateRule).on (announced t rs h)).1.toOption

/-- How sure a status is when grades are combined as numbers of another sort.  A status that is not
combined of outcomes is as sure as it is. -/
def confidenceOver [Graded α] (grade : Number → α) (d : Detector μ) (t : Tweak) (rs : RuleSet)
    (h : Host μ) (st : Status) : α :=
  match d.outcomes? t rs h with
  | some os => (Outcome.combine rs.logic (os.map (Outcome.regrade grade))).confidence
  | none => grade st.confidence

/-- The message about logic of its own is not seen. -/
theorem Steady.announced (hd : d.Steady view) (t : Tweak) (rs : RuleSet) (h : Host μ) :
    view (Detector.announced t rs h) = view h := by
  unfold Detector.announced
  split
  · exact (hd.say _ _ _).keeps h
  · rfl

theorem outcomes?_of_ok (hknown : Assoc.get? t.key d.wellKnown = none) (hne : rs.rules ≠ [])
    {os : List (Outcome Number)}
    (hrun : ((rs.rules.mapM d.evaluateRule).on (Detector.announced t rs h)).1 = .ok os) :
    d.outcomes? t rs h = some os := by
  rw [outcomes?, hknown, List.isEmpty_eq_false_iff.mpr hne, hrun]
  rfl

theorem outcomes?_of_error {f : Failure}
    (hrun : ((rs.rules.mapM d.evaluateRule).on (Detector.announced t rs h)).1 = .error f) :
    d.outcomes? t rs h = none := by
  rw [outcomes?, hrun]
  exact ite_self none

theorem outcomes?_of_known (hknown : (Assoc.get? t.key d.wellKnown).isSome = true) :
    d.outcomes? t rs h = none := by
  rw [outcomes?, hknown]
  rfl

theorem outcomes?_of_empty (hempty : rs.rules = []) : d.outcomes? t rs h = none := by
  rw [outcomes?, hempty, List.isEmpty_nil, Bool.or_true, if_pos rfl]

/-- A tweak with a rule set that is empty is guessed. -/
theorem verdict_of_empty (hknown : Assoc.get? t.key d.wellKnown = none) (ht : t.rules = some rs)
    (hempty : rs.rules = []) : d.verdict t h = guess t := by
  have hdetect : d.detect t = pure (guess t) := by
    rw [detect, hknown, ht]
    dsimp only
    rw [hempty, List.isEmpty_nil, if_pos rfl]
  rw [verdict, hdetect]
  rfl

/-- The rules in another order have the same outcomes, in another order, or fail as well. -/
theorem Steady.mapM_reordered (hd : d.Steady view) (hr : rs.Reordered rs') {t' : Tweak}
    (hview : view h' = view h) :
    (∃ os os', ((rs.rules.mapM d.evaluateRule).on (Detector.announced t rs h)).1 = .ok os ∧
      ((rs'.rules.mapM d.evaluateRule).on (Detector.announced t' rs' h')).1 = .ok os' ∧
      os'.Perm os) ∨
    ∃ f f', ((rs.rules.mapM d.evaluateRule).on (Detector.announced t rs h)).1 = .error f ∧
      ((rs'.rules.mapM d.evaluateRule).on (Detector.announced t' rs' h')).1 = .error f' := by
  have hview' : view (Detector.announced t' rs' h') = view h := (hd.announced t' rs' h').trans hview
  rw [Act.Settled.mapM_each hd.evaluateRule (hd.announced t rs h),
    Act.Settled.mapM_each hd.evaluateRule hview']
  exact mapM_perm hr.perm.symm

/-- What two verdicts on a tweak have in common: both are combined, of outcomes in another order, or
else they differ in their messages at most. -/
inductive Alike (d : Detector μ) (t t' : Tweak) (rs rs' : RuleSet) (h h' : Host μ) : Prop
  | combined {os os' : List (Outcome Number)} (outcomes : d.outcomes? t rs h = some os)
      (outcomes' : d.outcomes? t' rs' h' = some os') (perm : os'.Perm os)
      (proper : ∀ o ∈ os, o.confidence.IsProper) (verdict : d.verdict t h = ruled t rs.logic os)
      (verdict' : d.verdict t' h' = ruled t' rs'.logic os')
  | uncombined (outcomes : d.outcomes? t rs h = none) (outcomes' : d.outcomes? t' rs' h' = none)
      (message : String) (verdict : d.verdict t' h' = { d.verdict t h with message })

theorem alike_reordered (hd : d.Steady view) (ht : t.rules = some rs) (hr : rs.Reordered rs')
    (hview : view h' = view h) : d.Alike t (t.withRules rs') rs rs' h h' := by
  have hfallback : ∀ f, fallbackStatus (t.withRules rs') f = fallbackStatus t f := fun f => by
    have hsame : rs'.fallback = rs.fallback := by rw [hr.rest]
    unfold fallbackStatus Tweak.withRules
    rw [ht]
    dsimp only [Option.map_some, Option.getD_some]
    rw [hsame]
  cases hknown : Assoc.get? t.key d.wellKnown with
  | some detector =>
    obtain ⟨hsteady, hpasses⟩ := hd.wellKnown _ _ hknown t
    have hknown' : Assoc.get? (t.withRules rs').key d.wellKnown = some detector := hknown
    have hdetect : d.detect t = detector t d.probe := by rw [detect, hknown]
    have hdetect' : d.detect (t.withRules rs') = detector t d.probe := by
      rw [detect, hknown']
      exact hpasses (some rs')
    refine .uncombined (outcomes?_of_known (Option.isSome_of_eq_some hknown))
      (outcomes?_of_known (Option.isSome_of_eq_some hknown')) (d.verdict t h).message ?_
    rw [verdict, verdict, hdetect, hdetect', hsteady.same h' h hview]
    rcases ((detector t d.probe).on h).1 with f | st
    · exact hfallback f
    · rfl
  | none =>
    have hknown' : Assoc.get? (t.withRules rs').key d.wellKnown = none := hknown
    by_cases hempty : rs.rules = []
    · have hempty' : rs'.rules = [] := (hempty ▸ hr.perm).eq_nil
      refine .uncombined (outcomes?_of_empty hempty) (outcomes?_of_empty hempty')
        (d.verdict t h).message ?_
      rw [verdict_of_empty hknown ht hempty, verdict_of_empty hknown' rfl hempty']
      rfl
    · have hne' : rs'.rules ≠ [] := fun hnil => hempty (hnil ▸ hr.perm).symm.eq_nil
      rcases hd.mapM_reordered hr hview with ⟨os, os', hrun, hrun', hos⟩ | ⟨f, f', hrun, hrun'⟩
      · exact .combined (outcomes?_of_ok hknown hempty hrun) (outcomes?_of_ok hknown' hne' hrun')
          hos ((Act.Settled.mapM hd.evaluateRule rs.rules).gives _ _ hrun)
          (verdict_of_ok hknown ht hempty hrun) (verdict_of_ok hknown' rfl hne' hrun')
      · refine .uncombined (outcomes?_of_error hrun) (outcomes?_of_error hrun')
          (fallbackStatus t f').message ?_
        rw [verdict_of_error hknown ht hempty hrun, verdict_of_error hknown' rfl hne' hrun',
          hfallback]
        rfl

end Detector

/-- A rule that matches, one that does not, and one of no known type. -/
def mixedRules : RuleSet where
  rules :=
    [{ type := "file", filePath := .text "C:\\Demo", inverted := true },
     { type := "file", filePath := .text "C:\\Other", confidence := 0.3 },
     { type := "Moon" }]
  logic := .any

/-- The last one first. -/
def mixedRules' : RuleSet := { mixedRules with rules := mixedRules.rules.reverse }

theorem mixedRules_reordered : mixedRules.Reordered mixedRules' := ⟨List.reverse_perm _, rfl⟩

/-- A tweak with these rules. -/
def mixedTweak : Tweak := { id := "t", name := .text "T", rules := some mixedRules }

/-- A detector of the machine, with the built-in detectors. -/
def machineDetector : Detector Machine := .over Machine.probe true (.int 30)

theorem machineDetector_steady : machineDetector.Steady Host.machine :=
  Detector.over_steady Machine.probe_steady (fun _ _ => rfl) true (.int 30)

end TweakEngine
