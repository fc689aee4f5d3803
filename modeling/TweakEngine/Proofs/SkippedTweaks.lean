/-
# Tweaks that are skipped

An engine skips a tweak that its detector finds applied.  For a tweak whose rules repeat its
operations, `Detector.evaluate_repeats` says when that is: every operation has to find its
payload at the place that it declares.  `Engine.skips_iff` takes this to the call: a tweak is
skipped exactly then, nothing is done to the machine, and a place that an operation goes to
unredirected holds the payload already.

With a target user an operation on the current user's hive goes elsewhere, and there the rules
do not look (`sample_skipped`).
-/

import TweakEngine.Proofs.DetectedPayloads
import TweakEngine.Proofs.Shelves
import TweakEngine.Proofs.TweakCalls

namespace TweakEngine

open Session

/-- A rule that looks at the value which an operation sets and expects the operation's payload. -/
structure Rule.Repeats (rule : Rule) (op : RegistryOperation) : Prop where
  type : Labelled.parse? rule.type = some RuleKind.registryValue
  hive : rule.hive.truthy = true ∧ Labelled.ofDatum rule.hive = .ok op.hive
  keyPath : rule.keyPath = op.keyPath
  valueName : rule.valueName = op.valueName
  expected : rule.expected = op.value
  valueType : rule.valueType = op.kind.label
  inverted : rule.inverted = false

namespace RegistryOperation

variable {op : RegistryOperation} {m : Machine}

/-- A machine holds at a place a value that is accepted for the payload of an operation. -/
def AcceptedAt (op : RegistryOperation) (m : Machine) (place : Hive × Datum) : Prop :=
  ∃ p n v, Machine.folded place.2 = .ok p ∧ Machine.foldedName op.valueName = .ok n ∧
    m.stored (place.1, p) n = some v ∧
    Detection.valuesMatch ((v.map Datum.registry).getD .null) op.value op.kind.label = true

/-- A rule can look at the value that an operation declares. -/
structure Visible (op : RegistryOperation) (m : Machine) : Prop where
  named : op.keyPath.truthy = true ∧ op.valueName.truthy = true
  willing : m.faults (.readValue op.hive op.keyPath op.valueName) = none
  shown : ∀ p, Machine.folded op.keyPath = .ok p → (op.hive, p) ∉ m.denied

/-- The payload of an operation is seen at the place that the operation declares. -/
def SeenOn (op : RegistryOperation) (m : Machine) : Prop :=
  op.Visible m ∧ op.AcceptedAt m (op.hive, op.keyPath)

end RegistryOperation

/-! ## What a rule finds -/

section

variable {rule : Rule} {op : RegistryOperation} {d : Detector Machine} {m : Machine}

/-- What a machine says to the question for the value of an operation. -/
def RegistryOperation.answerOf (op : RegistryOperation) (m : Machine) : Except Failure Reading :=
  m.answer (.readValue op.hive op.keyPath op.valueName) (do
    return m.reading op.hive (← Machine.folded op.keyPath) (← Machine.foldedName op.valueName))

/-- What is found is shown. -/
theorem Machine.shown_of_reading {hive : Hive} {path name : String} {v : Option RegistryValue}
    (h : m.reading hive path name = .found v) : (hive, path) ∉ m.denied := by
  intro hd
  rw [reading, if_pos hd] at h
  exact nomatch h

/-- A payload is seen when the value has a name and the answer is one that is accepted. -/
theorem RegistryOperation.seenOn_iff : op.SeenOn m ↔
    (op.keyPath.truthy = true ∧ op.valueName.truthy = true) ∧
      ∃ v, op.answerOf m = .ok (.found v) ∧
        Detection.valuesMatch ((v.map Datum.registry).getD .null) op.value op.kind.label = true := by
  constructor
  · rintro ⟨⟨hnamed, hwilling, hshown⟩, p, n, v, hp, hn, hv, hmatch⟩
    refine ⟨hnamed, v, ?_, hmatch⟩
    rw [answerOf, Machine.answer_of_none hwilling, hp, hn,
      ← Machine.reading_of_stored (hshown p hp) hv]
    rfl
  · rintro ⟨hnamed, v, ha, hmatch⟩
    obtain ⟨p, hp, hrest⟩ := ok_of_bind (Machine.ok_of_answer ha)
    obtain ⟨n, hn, hreading⟩ := ok_of_bind hrest
    have hfound : m.reading op.hive p n = .found v := Except.ok.inj hreading
    have hwilling : m.faults (.readValue op.hive op.keyPath op.valueName) = none := by
      by_contra hne
      obtain ⟨f, hf⟩ := Option.ne_none_iff_exists'.mp hne
      rw [answerOf, Machine.answer, hf] at ha
      cases ha
    refine ⟨⟨hnamed, hwilling, fun p' hp' => ?_⟩, p, n, v, hp, hn,
      Machine.stored_of_reading hfound, hmatch⟩
    obtain rfl : p' = p := Except.ok.inj (hp'.symm.trans hp)
    exact Machine.shown_of_reading hfound

theorem Rule.Repeats.matched (hr : rule.Repeats op) (holds : Bool) (observed : String) :
    (Detection.outcome rule holds observed).matched = holds := by
  rw [Detection.outcome, hr.inverted]
  exact Bool.xor_false _

/-- A rule without names is incomplete, and nothing is asked. -/
theorem Rule.Repeats.evaluateValue_unnamed (hr : rule.Repeats op)
    (hnamed : ¬(op.keyPath.truthy = true ∧ op.valueName.truthy = true)) (h : Host Machine) :
    (Detection.evaluateValue rule Machine.probe).on h =
      (.ok (Detection.incomplete "registry rule"), h) := by
  have hguard : (!rule.hive.truthy || !rule.keyPath.truthy || !rule.valueName.truthy) = true := by
    rw [hr.hive.1, hr.keyPath, hr.valueName]
    revert hnamed
    cases op.keyPath.truthy <;> cases op.valueName.truthy <;> decide
  rw [Detection.evaluateValue]
  simp only [hguard, if_true]
  rfl

/-- A rule with names matches when the machine answers with a value that is accepted. -/
theorem Rule.Repeats.evaluateValue_named (hr : rule.Repeats op)
    (hnamed : op.keyPath.truthy = true ∧ op.valueName.truthy = true) (h : Host Machine) :
    ∃ x, (Detection.evaluateValue rule Machine.probe).on h = (x, h) ∧
      ((∃ o, x = .ok o ∧ o.matched = true) ↔ ∃ v, op.answerOf h.machine = .ok (.found v) ∧
        Detection.valuesMatch ((v.map Datum.registry).getD .null) op.value op.kind.label = true) := by
  have hguard : (!rule.hive.truthy || !rule.keyPath.truthy || !rule.valueName.truthy) = false := by
    rw [hr.hive.1, hr.keyPath, hr.valueName, hnamed.1, hnamed.2]
    rfl
  have hanswer : (Machine.readValue op.hive op.keyPath op.valueName).on h =
      (op.answerOf h.machine, h) := Machine.on_ask ..
  have hmissing : ∀ observed {accepted : Option RegistryValue → Prop} {answer : Reading},
      (∀ v, answer ≠ .found v) →
      ((∃ o, (.ok (Detection.outcome rule false observed) : Except Failure _) = .ok o ∧
          o.matched = true) ↔
        ∃ v, (.ok answer : Except Failure Reading) = .ok (.found v) ∧ accepted v) := by
    intro observed accepted answer hv
    refine iff_of_false ?_ ?_
    · rintro ⟨o, ho, hmatched⟩
      rw [← Except.ok.inj ho, hr.matched] at hmatched
      cases hmatched
    · rintro ⟨v, ha, -⟩
      exact hv v (Except.ok.inj ha)
  rw [Detection.evaluateValue]
  simp only [hguard, Bool.false_eq_true, if_false]
  rw [Act.on_bind, Act.on_result, hr.hive.2]
  dsimp only [Machine.probe]
  rw [hr.keyPath, hr.valueName, hr.expected, hr.valueType, Act.on_bind, hanswer]
  rcases op.answerOf h.machine with f | reading
  · refine ⟨_, rfl, iff_of_false ?_ ?_⟩
    · rintro ⟨o, ho, -⟩
      cases ho
    · rintro ⟨v, hv, -⟩
      cases hv
  · dsimp only
    split
    · exact ⟨_, rfl, hmissing _ fun v hv => by cases hv⟩
    · exact ⟨_, rfl, hmissing _ fun v hv => by cases hv⟩
    · exact ⟨_, rfl, hmissing _ fun v hv => by cases hv⟩
    · exact ⟨_, rfl, hmissing _ fun v hv => by cases hv⟩
    · next v =>
      refine ⟨_, rfl, ?_, ?_⟩
      · rintro ⟨o, ho, hmatched⟩
        rw [← Except.ok.inj ho, hr.matched] at hmatched
        exact ⟨v, rfl, hmatched⟩
      · rintro ⟨v', hv', hmatch⟩
        obtain rfl := Reading.found.inj (Except.ok.inj hv')
        exact ⟨_, rfl, (hr.matched _ _).trans hmatch⟩

/-- A rule that repeats an operation matches when the payload is seen, and only looks. -/
theorem Detection.evaluateValue_repeats (hr : rule.Repeats op) (h : Host Machine) :
    ∃ x, (evaluateValue rule Machine.probe).on h = (x, h) ∧
      ((∃ o, x = .ok o ∧ o.matched = true) ↔ op.SeenOn h.machine) := by
  rw [RegistryOperation.seenOn_iff]
  by_cases hnamed : op.keyPath.truthy = true ∧ op.valueName.truthy = true
  · obtain ⟨x, hx, hmatched⟩ := hr.evaluateValue_named hnamed h
    exact ⟨x, hx, hmatched.trans (and_iff_right hnamed).symm⟩
  · refine ⟨_, hr.evaluateValue_unnamed hnamed h, iff_of_false ?_ fun hs => hnamed hs.1⟩
    rintro ⟨o, ho, hmatched⟩
    rw [← Except.ok.inj ho] at hmatched
    cases hmatched

/-- Evaluating a rule that repeats an operation gives a match when the payload is seen. -/
theorem Detector.evaluateRule_repeats (hd : d.probe = Machine.probe)
    (hcustom : Assoc.get? (Text.fold rule.type) d.evaluators = none) (hr : rule.Repeats op)
    (h : Host Machine) :
    ((d.evaluateRule rule).on h).2.deeds = h.deeds ∧
      ((∃ o, ((d.evaluateRule rule).on h).1 = .ok o ∧ o.matched = true) ↔ op.SeenOn h.machine) := by
  have hevaluator : d.evaluatorOf rule = some (Detection.evaluateValue rule Machine.probe) := by
    rw [Detector.evaluatorOf, hcustom, hr.type, ← hd]
    rfl
  obtain ⟨x, hx, hmatched⟩ := Detection.evaluateValue_repeats hr h
  rw [Detector.evaluateRule, hevaluator]
  dsimp only
  rw [Act.on_bind, Act.on_attempt, hx]
  cases x with
  | ok o => exact ⟨rfl, hmatched⟩
  | error f =>
    have hunseen : ¬op.SeenOn h.machine := by
      intro hseen
      obtain ⟨o, ho, -⟩ := hmatched.mpr hseen
      cases ho
    cases f with
    | malformed cause =>
      refine ⟨rfl, iff_of_false ?_ hunseen⟩
      rintro ⟨o, ho, hm⟩
      have ho' : Outcome.matched o = false := congrArg Outcome.matched (Except.ok.inj ho).symm
      exact Bool.false_ne_true (ho'.symm.trans hm)
    | _ =>
      refine ⟨rfl, iff_of_false ?_ hunseen⟩
      rintro ⟨o, ho, -⟩
      cases ho

end

/-! ## What a detector finds -/

/-- A list of actions gives as many values as it has members. -/
theorem Act.length_of_mapM {σ α β : Type} {f : α → Act σ β} : ∀ {xs : List α} {ys : List β} {s : σ},
    ((xs.mapM f).on s).1 = .ok ys → ys.length = xs.length
  | [], ys, s, h => by
    obtain rfl : [] = ys := Except.ok.inj h
    rfl
  | x :: xs, ys, s, h => by
    have hrun : ((x :: xs).mapM f).on s = (.ok ys, (((x :: xs).mapM f).on s).2) := Prod.ext h rfl
    rw [List.mapM_cons] at hrun
    obtain ⟨y, s₁, -, hrun⟩ := Act.ok_of_on_bind hrun
    obtain ⟨ys', s₂, hrest, hrun⟩ := Act.ok_of_on_bind hrun
    obtain rfl : y :: ys' = ys := Except.ok.inj (congrArg Prod.fst hrun)
    exact congrArg Nat.succ (length_of_mapM (congrArg Prod.fst hrest))

/-- Going through a list of questions that leave what `g` shows, all answers match when every
question has a matching answer. -/
theorem Act.mapM_matched {σ γ α : Type} {g : σ → γ} {ask : α → Act σ (Outcome Number)}
    {holds : α → Prop} {shown : γ} : ∀ (xs : List α),
    (∀ x ∈ xs, ∀ s, g s = shown → g ((ask x).on s).2 = shown ∧
      ((∃ o, ((ask x).on s).1 = .ok o ∧ o.matched = true) ↔ holds x)) →
    ∀ s, g s = shown → g ((xs.mapM ask).on s).2 = shown ∧
      ((∃ os, ((xs.mapM ask).on s).1 = .ok os ∧ os.all Outcome.matched = true) ↔
        ∀ x ∈ xs, holds x)
  | [], _, s, hs => ⟨hs, iff_of_true ⟨[], rfl, rfl⟩ (List.forall_mem_nil _)⟩
  | x :: xs, h, s, hs => by
    obtain ⟨hkept, hx⟩ := h x List.mem_cons_self s hs
    have ih := mapM_matched xs fun x' hx' => h x' (List.mem_cons_of_mem _ hx')
    rw [List.mapM_cons, Act.on_bind, List.forall_mem_cons, ← hx]
    revert hkept
    rcases (ask x).on s with ⟨f | o, s₁⟩ <;> intro hkept
    · exact ⟨hkept, iff_of_false (fun ⟨_, ho, _⟩ => nomatch ho) fun ⟨⟨_, ho, _⟩, _⟩ => nomatch ho⟩
    · obtain ⟨hkept', hxs⟩ := ih s₁ hkept
      dsimp only
      rw [Act.on_bind, ← hxs]
      revert hkept'
      rcases (xs.mapM ask).on s₁ with ⟨f | os, s₂⟩ <;> intro hkept'
      · exact ⟨hkept', iff_of_false (fun ⟨_, ho, _⟩ => nomatch ho) fun ⟨_, _, ho, _⟩ => nomatch ho⟩
      · refine ⟨hkept', ⟨?_, ?_⟩⟩
        · rintro ⟨all, hok, hall⟩
          obtain rfl : o :: os = all := Except.ok.inj hok
          rw [List.all_cons, Bool.and_eq_true] at hall
          exact ⟨⟨o, rfl, hall.1⟩, os, rfl, hall.2⟩
        · rintro ⟨⟨o', ho, hmatched⟩, os', hos, hall⟩
          obtain rfl : o = o' := Except.ok.inj ho
          obtain rfl : os = os' := Except.ok.inj hos
          exact ⟨o :: os, rfl, by rw [List.all_cons, hmatched, hall]; rfl⟩

/-- The rules of a tweak repeat the operations of its registry, and all have to match. -/
structure Tweak.Repeated (t : Tweak) (rules : RuleSet) : Prop where
  has : t.rules = some rules
  logic : rules.logic = .all
  repeats : ∀ rule ∈ rules.rules, ∃ op ∈ t.operations.registry, rule.Repeats op
  repeated : ∀ op ∈ t.operations.registry, ∃ rule ∈ rules.rules, rule.Repeats op

/-- A detector of the machine that goes by the rules of a tweak: no detector speaks for the tweak
and no evaluator for the rules. -/
structure Detector.GoesBy (d : Detector Machine) (t : Tweak) (rules : RuleSet) : Prop where
  probe : d.probe = Machine.probe
  wellKnown : Assoc.get? t.key d.wellKnown = none
  evaluators : ∀ rule ∈ rules.rules, Assoc.get? (Text.fold rule.type) d.evaluators = none

/-- The payload of every operation in the registry is seen, and there is one. -/
def Tweak.SeenOn (t : Tweak) (m : Machine) : Prop :=
  t.operations.registry ≠ [] ∧ ∀ op ∈ t.operations.registry, op.SeenOn m

section

variable {t : Tweak} {rules : RuleSet} {d : Detector Machine}

/-- The rules find a tweak applied when all its payloads are seen. -/
theorem Detector.detect_repeats (hd : d.GoesBy t rules) (ht : t.Repeated rules) (h : Host Machine) :
    ((d.detect t).on h).2.deeds = h.deeds ∧
      ((∃ status, ((d.detect t).on h).1 = .ok status ∧ status.detectedApplied = true) ↔
        t.SeenOn h.machine) := by
  -- a rule stands for every operation that it repeats
  have hrule : ∀ rule ∈ rules.rules, ∀ h', h'.deeds = h.deeds →
      ((d.evaluateRule rule).on h').2.deeds = h.deeds ∧
        ((∃ o, ((d.evaluateRule rule).on h').1 = .ok o ∧ o.matched = true) ↔
          ∀ op ∈ t.operations.registry, rule.Repeats op → op.SeenOn h.machine) := by
    intro rule hmem h' hh
    have hmachine : h'.machine = h.machine := congrArg Prod.fst hh
    have heach := fun op (hop : rule.Repeats op) =>
      evaluateRule_repeats hd.probe (hd.evaluators rule hmem) hop h'
    rw [hmachine] at heach
    obtain ⟨op, hop, hrepeats⟩ := ht.repeats rule hmem
    exact ⟨(heach op hrepeats).1.trans hh, fun hm op' _ hop' => (heach op' hop').2.mp hm,
      fun hseen => (heach op hrepeats).2.mpr (hseen op hop hrepeats)⟩
  obtain ⟨hkept, houtcomes⟩ := Act.mapM_matched rules.rules hrule h rfl
  rw [detect, hd.wellKnown, ht.has]
  dsimp only
  cases hrules : rules.rules with
  | nil =>
    have hnone : t.operations.registry = [] := by
      refine List.eq_nil_iff_forall_not_mem.mpr fun op hop => ?_
      obtain ⟨rule, hmem, -⟩ := ht.repeated op hop
      rw [hrules] at hmem
      exact nomatch hmem
    refine ⟨rfl, iff_of_false ?_ fun hseen => hseen.1 hnone⟩
    rintro ⟨status, hstatus, happlied⟩
    rw [← Except.ok.inj hstatus, guess, hnone] at happlied
    exact nomatch happlied
  | cons rule more =>
    have hseen : t.SeenOn h.machine ↔ ∀ rule ∈ rules.rules, ∀ op ∈ t.operations.registry,
        rule.Repeats op → op.SeenOn h.machine := by
      refine ⟨fun hs _ _ op hop _ => hs.2 op hop, fun hs => ⟨?_, fun op hop => ?_⟩⟩
      · obtain ⟨op, hop, -⟩ := ht.repeats rule (hrules ▸ List.mem_cons_self)
        exact List.ne_nil_of_mem hop
      · obtain ⟨rule', hmem, hrepeats⟩ := ht.repeated op hop
        exact hs rule' hmem op hop hrepeats
    rw [List.isEmpty_cons, evaluateRules, ht.logic, hseen, ← houtcomes]
    simp only [Bool.false_eq_true, if_false, reduceCtorEq]
    rw [Act.on_bind]
    have hlength : ∀ os, ((rules.rules.mapM d.evaluateRule).on h).1 = .ok os →
        os.length = rules.rules.length := fun _ => Act.length_of_mapM
    rw [hrules] at hlength hkept ⊢
    revert hkept hlength
    rcases ((rule :: more).mapM d.evaluateRule).on h with ⟨f | os, h'⟩ <;> intro hkept hlength
    · exact ⟨hkept, iff_of_false (fun ⟨_, ho, _⟩ => nomatch ho) fun ⟨_, ho, _⟩ => nomatch ho⟩
    · obtain ⟨o, os, rfl⟩ := List.exists_cons_of_length_eq_add_one (hlength os rfl)
      refine ⟨hkept, ⟨?_, ?_⟩⟩
      · rintro ⟨status, hstatus, happlied⟩
        rw [← Except.ok.inj hstatus] at happlied
        exact ⟨_, rfl, happlied⟩
      · rintro ⟨os', hos, hall⟩
        rw [← Except.ok.inj hos] at hall
        exact ⟨_, rfl, hall⟩

/-- A detector that goes by the rules of a tweak answers, only looks, and finds the tweak applied
when all its payloads are seen. -/
theorem Detector.evaluate_repeats (hd : d.GoesBy t rules) (ht : t.Repeated rules)
    (h : Host Machine) : ∃ status h', (d.evaluate t).on h = (.ok status, h') ∧ h'.deeds = h.deeds ∧
      (status.detectedApplied = true ↔ t.SeenOn h.machine) := by
  obtain ⟨hkept, hfound⟩ := detect_repeats hd ht h
  rw [evaluate, Act.on_bind, Act.on_attempt]
  revert hkept hfound
  rcases (d.detect t).on h with ⟨f | status, h₁⟩ <;> intro hkept hfound
  · refine ⟨_, _, rfl, hkept, iff_of_false nofun fun hseen => ?_⟩
    obtain ⟨_, hok, -⟩ := hfound.mpr hseen
    exact nomatch hok
  · refine ⟨_, _, rfl, hkept, ?_⟩
    rw [← hfound]
    refine ⟨fun happlied => ⟨status, rfl, happlied⟩, ?_⟩
    rintro ⟨status', hok, happlied⟩
    rw [← Except.ok.inj hok] at happlied
    exact happlied

end

/-! ## What a call skips -/

namespace Engine

section

variable {μ : Type} {cancelled : Session μ → Bool}

theorem runStep_skipped {st : Step μ} {r r' : Result} {f? : Option Failure} {s s' : Session μ}
    (h : (runStep st r).on s = (.ok (r', f?), s')) : r'.skipped = r.skipped := by
  unfold runStep at h
  rw [Act.on_bind, Act.on_attempt] at h
  revert h
  rcases st.run.on s with ⟨f | note?, s₁⟩
  · dsimp only
    cases f.isOperational <;> intro h <;> cases h <;> rfl
  · cases note? <;> intro h <;> cases h <;> rfl

/-- A run of steps does not skip. -/
theorem execute_skipped {steps : List (Step μ)} {r r' : Result} {s s' : Session μ}
    (h : (execute cancelled steps r).on s = (.ok r', s')) : r'.skipped = r.skipped := by
  induction steps generalizing r s with
  | nil => cases h; rfl
  | cons st steps ih =>
    cases hc : cancelled s with
    | true =>
      rw [execute_of_cancelled hc] at h
      cases h
      rfl
    | false =>
      obtain ⟨r₁, f?, s₁, hrun, -⟩ := runStep_on st r s
      rw [execute_of_step hc hrun] at h
      have hr₁ := runStep_skipped hrun
      cases f? with
      | none => exact (ih h).trans hr₁
      | some f => cases h; exact hr₁

/-- A call skips the tweak when the check finds it applied, and then does nothing more. -/
theorem apply_skipped (cancelled : Session μ → Bool) {e : Engine μ} {t : Tweak} {s s₁ : Session μ}
    {found : Bool} (h : (onHost (e.alreadyApplied t)).on s = (.ok found, s₁)) :
    (found = true → ∃ r s', (e.apply cancelled t).on s = (.ok r, s') ∧ r.skipped = true) ∧
      ∀ r s', (e.apply cancelled t).on s = (.ok r, s') →
        r.skipped = found ∧ (found = true → s'.host.deeds = s₁.host.deeds) := by
  have hnow : (onHost Host.now : Work μ Moment).on s = (.ok s.host.clock, s) := rfl
  rw [apply, Act.on_bind_of_ok hnow, Act.on_bind_of_ok h]
  cases found with
  | true => exact ⟨fun _ => ⟨_, _, rfl, rfl⟩, fun r s' hcall => by cases hcall; exact ⟨rfl, fun _ => rfl⟩⟩
  | false =>
    refine ⟨fun h => absurd h Bool.false_ne_true, fun r s' hcall =>
      ⟨?_, fun h => absurd h Bool.false_ne_true⟩⟩
    simp only [Bool.false_eq_true, if_false] at hcall
    cases hmay : e.mayRun t.operations with
    | false =>
      rw [hmay] at hcall
      cases hcall
      rfl
    | true =>
      rw [hmay] at hcall
      simp only [Bool.not_true, Bool.false_eq_true, if_false] at hcall
      obtain ⟨-, s₂, -, hcall⟩ := Act.ok_of_on_bind hcall
      obtain ⟨-, s₃, -, hcall⟩ := Act.ok_of_on_bind hcall
      obtain ⟨steps, s₄, -, hcall⟩ := Act.ok_of_on_bind hcall
      obtain ⟨r₁, s₅, hrun, hcall⟩ := Act.ok_of_on_bind hcall
      obtain ⟨-, s₆, -, hcall⟩ := Act.ok_of_on_bind hcall
      cases hcall
      exact execute_skipped hrun

end

variable {e : Engine Machine} {t : Tweak} {rules : RuleSet} {d : Detector Machine}

/-- **What is skipped.**  A tweak whose rules repeat its operations is skipped exactly when the
payload of every operation is seen at the place that the operation declares.  A call that skips
does nothing to the machine, and every operation that is not redirected would have gone to a
place that holds what is accepted for its payload. -/
theorem skips_iff (hskip : e.skipIfApplied = true) (hdetector : e.detector = some d)
    (hd : d.GoesBy t rules) (ht : t.Repeated rules) (cancelled : Session Machine → Bool)
    (s : Session Machine) :
    ((∃ r s', (e.apply cancelled t).on s = (.ok r, s') ∧ r.skipped = true) ↔
      t.SeenOn s.host.machine) ∧
    ∀ r s', (e.apply cancelled t).on s = (.ok r, s') → r.skipped = true →
      s'.host.deeds = s.host.deeds ∧
      ∀ op ∈ t.operations.registry, e.redirects op.hive = false →
        ∃ place, (onHost (e.resolve op.hive op.keyPath)).on s' = (.ok place, s') ∧
          op.AcceptedAt s'.host.machine place := by
  obtain ⟨status, h', heval, hkept, hfound⟩ := Detector.evaluate_repeats hd ht s.host
  have hcheck : ∃ s₁, (onHost (e.alreadyApplied t)).on s = (.ok status.detectedApplied, s₁) ∧
      s₁.host.deeds = s.host.deeds := by
    rw [onHost, Part.on_lift, alreadyApplied, hskip, hdetector]
    dsimp only [hostPart]
    rw [Act.on_bind, heval]
    dsimp only
    cases status.detectedApplied
    all_goals
      refine ⟨_, rfl, ?_⟩
      exact hkept
  obtain ⟨s₁, hs₁, hdeeds⟩ := hcheck
  obtain ⟨hskips, hanswers⟩ := apply_skipped cancelled hs₁
  have hseen : ∀ r s', (e.apply cancelled t).on s = (.ok r, s') → r.skipped = true →
      t.SeenOn s.host.machine := fun r s' hcall hr =>
    hfound.mp ((hanswers r s' hcall).1.symm.trans hr)
  have hseen_of_skip : (∃ r s', (e.apply cancelled t).on s = (.ok r, s') ∧ r.skipped = true) →
      t.SeenOn s.host.machine := by
    rintro ⟨r, s', hcall, hr⟩
    exact hseen r s' hcall hr
  refine ⟨⟨hseen_of_skip, fun hs => hskips (hfound.mpr hs)⟩, ?_⟩
  intro r s' hcall hr
  have hs' : s'.host.deeds = s.host.deeds :=
    ((hanswers r s' hcall).2 (hfound.mpr (hseen r s' hcall hr))).trans hdeeds
  refine ⟨hs', fun op hop hredirects => ⟨(op.hive, op.keyPath), ?_, ?_⟩⟩
  · have hstays : (decide (op.hive ≠ .currentUser) || !e.targetUser.truthy) = true := by
      revert hredirects
      rw [redirects]
      cases e.targetUser.truthy <;> simp
    rw [resolve]
    simp only [hstays, if_true]
    rfl
  · rw [show s'.host.machine = s.host.machine from congrArg Prod.fst hs']
    exact ((hseen r s' hcall hr).2 op hop).2

end Engine

/-! ## Samples -/

section

/-- Sets a value of the current user. -/
def ownSetting : RegistryOperation :=
  { hive := .currentUser, keyPath := .text "Software\\Demo", valueName := .text "Level"
    value := .int 1 }

/-- The rule that repeats the setting. -/
def ownRule : Rule :=
  { type := "RegistryValue", hive := .text "CurrentUser", keyPath := .text "Software\\Demo"
    valueName := .text "Level", expected := .int 1 }

/-- A tweak of the setting, with its rule. -/
def ownTweak : Tweak :=
  { id := "t", name := .text "T", operations := { registry := [ownSetting] }
    rules := some { rules := [ownRule] } }

/-- An engine that asks a detector of the machine, for a target user or none. -/
def checkingEngine (user : String) : Engine Machine :=
  { mutator := Machine.mutator, detector := some { probe := Machine.probe }
    targetUser := .text user }

/-- A machine on which the current user has the value, and another user has a hive. -/
def twoUsers : Session Machine :=
  { host := { machine := { keys :=
      [((.currentUser, "software\\demo"), [("level", some (.dword 1))]),
        ((.users, "s-1-5-21-1000"), [])] } } }

theorem ownTweak_repeated : ownTweak.Repeated { rules := [ownRule] } := by
  have hrepeats : ownRule.Repeats ownSetting :=
    ⟨by decide +kernel, ⟨by decide +kernel, by decide +kernel⟩, rfl, rfl, rfl, rfl, rfl⟩
  exact ⟨rfl, rfl, fun rule h => ⟨ownSetting, List.mem_singleton_self _,
    (List.mem_singleton.mp h) ▸ hrepeats⟩, fun op h => ⟨ownRule, List.mem_singleton_self _,
    (List.mem_singleton.mp h) ▸ hrepeats⟩⟩

/-- Without a target user the tweak is skipped, and the value is where it would have been set. -/
theorem sample_found : ∃ r s', ((checkingEngine "").apply (fun _ => false) ownTweak).on twoUsers =
    (.ok r, s') ∧ r.skipped = true ∧ s'.host.deeds = twoUsers.host.deeds ∧
      ownSetting.AcceptedAt s'.host.machine (.currentUser, .text "Software\\Demo") := by
  have hseen : ownTweak.SeenOn twoUsers.host.machine := by
    refine ⟨nofun, fun op h => ?_⟩
    obtain rfl := List.mem_singleton.mp h
    exact ⟨⟨⟨by decide +kernel, by decide +kernel⟩, rfl, fun _ _ => List.not_mem_nil⟩,
      "software\\demo", "level", some (.dword 1), by decide +kernel, by decide +kernel,
      by decide +kernel, by decide +kernel⟩
  obtain ⟨hskips, hplaces⟩ := Engine.skips_iff (e := checkingEngine "") rfl rfl
    (d := { probe := Machine.probe }) ⟨rfl, rfl, fun _ _ => rfl⟩ ownTweak_repeated
    (fun _ => false) twoUsers
  obtain ⟨r, s', hcall, hr⟩ := hskips.mpr hseen
  obtain ⟨hdeeds, hwhere⟩ := hplaces r s' hcall hr
  obtain ⟨place, hplace, haccepted⟩ := hwhere ownSetting (List.mem_singleton_self _) rfl
  cases hplace
  exact ⟨r, s', hcall, hr, hdeeds, haccepted⟩

/-- With a target user the tweak is skipped as well, and at the place where the value would have
been set there is none. -/
theorem sample_skipped :
    ((checkingEngine "S-1-5-21-1000").apply (fun _ => false) ownTweak).succeeds twoUsers
        (fun r s => r.skipped && s.host.writes.isEmpty) = true ∧
      ((checkingEngine "S-1-5-21-1000").resolve .currentUser (.text "Software\\Demo")).on
          twoUsers.host = (.ok (.users, .text "S-1-5-21-1000\\Software\\Demo"), twoUsers.host) ∧
      ¬ownSetting.AcceptedAt twoUsers.host.machine
        (.users, .text "S-1-5-21-1000\\Software\\Demo") := by
  refine ⟨by decide +kernel, rfl, ?_⟩
  rintro ⟨p, n, v, hp, -, hv, -⟩
  have hp' : p = "s-1-5-21-1000\\software\\demo" :=
    Except.ok.inj (hp.symm.trans (by decide +kernel))
  subst hp'
  have hkey : Assoc.get? (Hive.users, "s-1-5-21-1000\\software\\demo") twoUsers.host.machine.keys =
      none := by decide +kernel
  rw [Machine.stored, hkey] at hv
  cases hv

end
end TweakEngine
