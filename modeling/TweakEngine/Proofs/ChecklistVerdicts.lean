/-
# Verdicts of checklists

A checklist asks for the value of each of its checks.  A check counts when it is critical and its
key exists, and `Checklist.marks` says of each check that counts whether its value is the expected
one.  The verdict depends on the marks alone: of `t` marks of which `m` match, the tweak is applied
when all of them match, or all but one of at least four (`Tally.applied_iff`), and the certainty
grows with `m / t` up to a bound (`Tally.confidence_exact`).

So checks may stand in another order, and those that do not count may come and go
(`Checklist.marks_perm`); and a mark that comes to match lowers nothing
(`Tally.applied_mono`, `Tally.confidence_mono`).  `Checklist.detect_verdict` puts this together
for the statuses that two checklists give over two probes.
-/

import TweakEngine.Proofs.RuleOrder

namespace TweakEngine

variable {μ μ' γ γ' : Type}

namespace Detection

/-! ## Counts -/

namespace Tally

variable {t t' : Tally}

/-- The counts without the additional checks. -/
def critical (t : Tally) : Tally := { t with additionalMatched := 0, additionalTotal := 0 }

/-- **When a tweak is applied**: all critical checks match, or all but one of at least four. -/
theorem applied_iff (h : t.criticalMatched ≤ t.criticalTotal) :
    t.applied = true ↔ 1 ≤ t.criticalTotal ∧ (t.criticalMatched = t.criticalTotal ∨
      4 ≤ t.criticalTotal ∧ t.criticalMatched + 1 = t.criticalTotal) := by
  simp only [applied, Bool.and_eq_true, decide_eq_true_eq]
  omega

theorem applied_mono (htotal : t.criticalTotal = t'.criticalTotal)
    (hmatched : t.criticalMatched ≤ t'.criticalMatched) (h : t.applied = true) :
    t'.applied = true := by
  simp only [applied, Bool.and_eq_true, decide_eq_true_eq] at h ⊢
  omega

theorem amount_exact (n : Nat) : (amount n : ℚ) = n := by
  simp only [amount, OfScientific.ofScientific, Rat.ofScientific_false_def, pow_zero, mul_one]
  rfl

/-- **How sure a verdict is**, in exact fractions. -/
theorem confidence_exact (t : Tally) : (t.confidence : ℚ) =
    min (95 / 100) (6 / 10 + 35 / 100 * ((t.criticalMatched : ℚ) / t.criticalTotal)) := by
  have hshare : (if t.criticalTotal = 0 then 0.0
      else amount t.criticalMatched / amount t.criticalTotal : ℚ) =
        t.criticalMatched / t.criticalTotal := by
    rw [amount_exact, amount_exact]
    split
    · next h =>
      rw [h, Nat.cast_zero, div_zero]
      norm_num
    · rfl
  have hgrown : ∀ share : ℚ, 6 / 10 + 35 / 100 * share = 0.6 + share * 0.35 := fun _ => by ring
  have hbound : (95 / 100 : ℚ) = 0.95 := by norm_num
  rw [hgrown, hbound, ← hshare, min_comm, min_def_lt]
  rfl

theorem confidence_mono (htotal : t.criticalTotal = t'.criticalTotal)
    (hmatched : t.criticalMatched ≤ t'.criticalMatched) :
    (t.confidence : ℚ) ≤ t'.confidence := by
  rw [confidence_exact, confidence_exact, htotal]
  gcongr

end Tally

/-! ## Marks -/

/-- What there is to read: a reading for each value. -/
abbrev Readings := Hive → String → String → Reading

namespace Check

/-- What is read for a check. -/
def reading (c : Check) (state : Readings) : Reading := state c.hive c.keyPath c.valueName

/-- Whether a check counts towards the verdict: it is critical, and its key exists. -/
def counts (c : Check) (state : Readings) : Bool := c.critical && (c.reading state).keyExists

/-- Whether the value of a check is the expected one. -/
def holds (c : Check) (state : Readings) : Bool := (c.judge (c.reading state)).matched

theorem judge_check (c : Check) (r : Reading) : (c.judge r).check = c := by
  unfold judge
  split <;> rfl

theorem judge_keyFound (c : Check) (r : Reading) : (c.judge r).keyFound = r.keyExists := by
  unfold judge
  cases r.keyExists <;> rfl

end Check

/-- Truths of which none has come to fail are as many or more. -/
theorem count_true_le {bs bs' : List Bool}
    (h : List.Forall₂ (fun b b' => b = true → b' = true) bs bs') :
    bs.count true ≤ bs'.count true := by
  induction h with
  | nil => exact Nat.le_refl 0
  | @cons b b' bs bs' hb _ ih =>
    have hstep : (if (b == true) = true then 1 else 0) ≤ if (b' == true) = true then 1 else 0 := by
      revert hb
      cases b <;> cases b' <;> decide
    rw [List.count_cons, List.count_cons]
    omega

namespace Checklist

variable {l l' : Checklist} {state state' : Readings}

/-- Of each check that counts, whether its value is the expected one. -/
def marks (l : Checklist) (state : Readings) : List Bool :=
  (l.checks.filter (·.counts state)).map (·.holds state)

/-- The counts that the marks give. -/
def tally (l : Checklist) (state : Readings) : Tally :=
  ⟨(l.marks state).count true, (l.marks state).length, 0, 0⟩

theorem tally_matched_le (l : Checklist) (state : Readings) :
    (l.tally state).criticalMatched ≤ (l.tally state).criticalTotal := List.count_le_length

/-- The additional checks apart, checks are counted by their marks. -/
theorem critical_of_judged (l : Checklist) (state : Readings) :
    (Tally.of (l.checks.map fun c => c.judge (c.reading state))).critical = l.tally state := by
  have hcounted : Tally.counted true (l.checks.map fun c => c.judge (c.reading state)) =
      (l.checks.filter (·.counts state)).map fun c => c.judge (c.reading state) := by
    rw [Tally.counted, List.filter_map]
    refine congrArg _ (List.filter_congr fun c _ => ?_)
    rw [Function.comp_apply, Check.judge_check, Check.judge_keyFound, Check.counts, Bool.and_comm]
    cases c.critical <;> rfl
  simp only [Tally.critical, Tally.of, hcounted, tally, marks, List.length_map, List.count,
    List.countP_map]
  congr 1
  refine List.countP_congr fun c _ => ?_
  rw [Function.comp_apply, Function.comp_apply, Check.holds, beq_true]

/-- **Only checks that count have a mark**: the same critical checks in another order, with any
additional checks between them, have the same marks in another order. -/
theorem marks_perm (h : (l'.checks.filter Check.critical).Perm (l.checks.filter Check.critical)) :
    (l'.marks state).Perm (l.marks state) := by
  have hcounts : ∀ cs : List Check, cs.filter (·.counts state) =
      (cs.filter Check.critical).filter fun c => (c.reading state).keyExists := fun cs => by
    rw [List.filter_filter]
    exact List.filter_congr fun c _ => Bool.and_comm _ _
  rw [marks, marks, hcounts, hcounts]
  exact (h.filter _).map _

theorem tally_of_perm (h : (l'.marks state').Perm (l.marks state)) :
    l'.tally state' = l.tally state := by
  rw [tally, tally, h.count_eq, h.length_eq]

/-- Marks of which none has come to fail: as many of them, and as many that match or more. -/
theorem tally_of_improved
    (h : List.Forall₂ (fun b b' => b = true → b' = true) (l.marks state) (l'.marks state')) :
    (l.tally state).criticalTotal = (l'.tally state').criticalTotal ∧
      (l.tally state).criticalMatched ≤ (l'.tally state').criticalMatched :=
  ⟨h.length_eq, count_true_le h⟩

end Checklist
end Detection

/-! ## Statuses -/

open Detection

/-- On this host the probe answers each question of some checks as the state says. -/
structure Probe.Shows (probe : Probe μ) (view : Host μ → γ) (h : Host μ) (state : Readings)
    (checks : List Check) : Prop where
  steady : probe.Steady view
  answers : ∀ c ∈ checks, ((probe.readValue c.hive (.text c.keyPath) (.text c.valueName)).on h).1 =
    .ok (c.reading state)

namespace Detection.Checklist

variable {probe : Probe μ} {probe' : Probe μ'} {view : Host μ → γ} {view' : Host μ' → γ'}
  {h : Host μ} {h' : Host μ'} {l l' : Checklist} {state state' : Readings}

/-- The checks of a checklist are judged by what the state says. -/
theorem checked_on (hs : probe.Shows view h state l.checks) :
    ((l.checks.mapM fun c : Check => c.run probe).on h).1 =
      .ok (l.checks.map fun c => c.judge (c.reading state)) := by
  rw [Act.Settled.mapM_each (steady_checkRun hs.steady) rfl, mapM_eq_ok_iff,
    List.forall₂_map_right_iff, List.forall₂_same]
  intro c hc
  rw [Check.run, bind_pure_comp, Act.on_map, hs.answers c hc]
  rfl

/-- A checklist gives a status, and its verdict is that of the marks. -/
theorem detect_tally (hs : probe.Shows view h state l.checks) (tweak : Tweak) :
    ∃ s, ((l.detect tweak probe).on h).1 = .ok s ∧ s.isApplied = (l.tally state).applied ∧
      s.confidence = .float (l.tally state).confidence := by
  obtain ⟨h₁, hchecked⟩ : ∃ h₁, (l.checks.mapM fun c : Check => c.run probe).on h =
      (.ok (l.checks.map fun c => c.judge (c.reading state)), h₁) :=
    ⟨_, Prod.ext (checked_on hs) rfl⟩
  refine ⟨l.status tweak.id (l.checks.map fun c => c.judge (c.reading state)), ?_, ?_⟩
  · rw [detect, Act.on_bind_of_ok hchecked]
    rfl
  · rw [← critical_of_judged]
    exact ⟨rfl, rfl⟩

/-- How sure the marks make a verdict, in exact fractions. -/
def certainty (l : Checklist) (state : Readings) : ℚ := (l.tally state).confidence

/-- **The verdict of a checklist** depends on its marks alone.  Of `t` checks that count and `m`
that match, it is "applied" when all match, or all but one of at least four, and its certainty is
six tenths and a share of `m / t`, at most `0.95`.  Marks in another order give the same verdict;
so do the same critical checks in another order, with any additional checks.  When
no mark comes to fail, neither the verdict nor the certainty is lowered. -/
theorem detect_verdict (hs : probe.Shows view h state l.checks)
    (hs' : probe'.Shows view' h' state' l'.checks) (tweak tweak' : Tweak) :
    ∃ s s', ((l.detect tweak probe).on h).1 = .ok s ∧ ((l'.detect tweak' probe').on h').1 = .ok s' ∧
      (let m := (l.marks state).count true
       let t := (l.marks state).length
       (s.isApplied = true ↔ 1 ≤ t ∧ (m = t ∨ 4 ≤ t ∧ m + 1 = t)) ∧
        s.confidence = .float (l.tally state).confidence ∧
        l.certainty state = min (95 / 100) (6 / 10 + 35 / 100 * ((m : ℚ) / t)) ∧
        (t = 0 → l.certainty state = 6 / 10)) ∧
      ((l'.marks state').Perm (l.marks state) →
        s'.isApplied = s.isApplied ∧ s'.confidence = s.confidence) ∧
      (state' = state →
        (l'.checks.filter Check.critical).Perm (l.checks.filter Check.critical) →
          s'.isApplied = s.isApplied ∧ s'.confidence = s.confidence) ∧
      (List.Forall₂ (fun b b' => b = true → b' = true) (l.marks state) (l'.marks state') →
        (s.isApplied = true → s'.isApplied = true) ∧ l.certainty state ≤ l'.certainty state') := by
  obtain ⟨s, hs, happlied, hconfidence⟩ := detect_tally hs tweak
  obtain ⟨s', hs', happlied', hconfidence'⟩ := detect_tally hs' tweak'
  have hsame : (l'.marks state').Perm (l.marks state) →
      s'.isApplied = s.isApplied ∧ s'.confidence = s.confidence := by
    intro hperm
    rw [happlied, happlied', hconfidence, hconfidence', tally_of_perm hperm]
    exact ⟨rfl, rfl⟩
  refine ⟨s, s', hs, hs', ⟨?_, hconfidence, Tally.confidence_exact _, ?_⟩, hsame, ?_, ?_⟩
  · rw [happlied]
    exact Tally.applied_iff (l.tally_matched_le state)
  · intro hnone
    have hzero : (l.tally state).criticalTotal = 0 := hnone
    rw [certainty, Tally.confidence_exact, hzero]
    norm_num
  · rintro rfl hperm
    exact hsame (marks_perm hperm)
  · intro himproved
    obtain ⟨htotal, hmatched⟩ := tally_of_improved himproved
    rw [happlied, happlied']
    exact ⟨Tally.applied_mono htotal hmatched, Tally.confidence_mono htotal hmatched⟩

end Detection.Checklist

/-! ## Checklists over a machine -/

/-- What can be read of a machine. -/
def Machine.readings (m : Machine) : Readings := fun hive path name =>
  m.reading hive (Text.lowerAsciiText path) (if name = "" then "" else Text.lowerAsciiText name)

/-- A machine that refuses nothing shows what can be read of it. -/
theorem Machine.probe_shows {h : Host Machine} (hf : ∀ r, h.machine.faults r = none)
    (checks : List Check) : probe.Shows Host.machine h h.machine.readings checks where
  steady := probe_steady
  answers c _ := by
    have hname : foldedName (.text c.valueName) =
        .ok (if c.valueName = "" then "" else Text.lowerAsciiText c.valueName) := by
      rw [foldedName, Datum.truthy]
      by_cases hempty : c.valueName = ""
      · rw [hempty]
        rfl
      · rw [if_pos (bne_iff_ne.mpr hempty), if_neg hempty]
        rfl
    show ((readValue _ _ _).on h).1 = _
    rw [readValue, on_ask, answer_of_none (hf _), hname]
    rfl

/-- Four critical checks of one key and an additional one, and a check of a key that is missing. -/
def sampleChecklist : Checklist where
  label := "Sample"
  checks :=
    ["a", "b", "c", "d"].map (fun name => ⟨name, .localMachine, "Demo", name, 1, true⟩) ++
      [⟨"gone", .localMachine, "Gone", "a", 1, true⟩, ⟨"e", .localMachine, "Demo", "e", 1, false⟩]

/-- A machine on which three of the four values are as expected, and the fourth has a number. -/
def checkedMachine (n : BitVec 32) : Host Machine where
  machine :=
    { keys := [((.localMachine, "demo"),
        [("a", some (.dword 1)), ("b", some (.string "0x1")), ("c", some (.qword 1)),
         ("d", some (.dword n))])] }

/-- A tweak that a checklist is about. -/
def checkedTweak : Tweak := { id := "t", name := .text "T" }

/-- One failure among four is passed over; without it the checklist is surer. -/
theorem sampleChecklist_applied :
    sampleChecklist.marks (checkedMachine 0).machine.readings = [true, true, true, false] ∧
      sampleChecklist.marks (checkedMachine 1).machine.readings = [true, true, true, true] ∧
      ∃ s s', ((sampleChecklist.detect checkedTweak Machine.probe).on (checkedMachine 0)).1 = .ok s ∧
        ((sampleChecklist.detect checkedTweak Machine.probe).on (checkedMachine 1)).1 = .ok s' ∧
        s.isApplied = true ∧ s'.isApplied = true ∧
        sampleChecklist.certainty (checkedMachine 0).machine.readings = 69 / 80 := by
  have hmarks : sampleChecklist.marks (checkedMachine 0).machine.readings =
      [true, true, true, false] := by decide +kernel
  have hmarks' : sampleChecklist.marks (checkedMachine 1).machine.readings =
      [true, true, true, true] := by decide +kernel
  obtain ⟨s, s', hs, hs', ⟨happlied, -, hcertain, -⟩, -, -, hmono⟩ :=
    Checklist.detect_verdict
      (Machine.probe_shows (h := checkedMachine 0) (fun _ => rfl) sampleChecklist.checks)
      (Machine.probe_shows (h := checkedMachine 1) (fun _ => rfl) sampleChecklist.checks)
      checkedTweak checkedTweak
  have hyes : s.isApplied = true := happlied.mpr (by rw [hmarks]; decide)
  refine ⟨hmarks, hmarks', s, s', hs, hs', hyes, (hmono ?_).1 hyes, ?_⟩
  · rw [hmarks, hmarks']
    simp
  · rw [hcertain, hmarks]
    norm_num

end TweakEngine
