/-
# Malformed rules

The fields of a rule are whatever the catalog holds.  A rule of an unknown type, without a field
that its kind needs, or with a hive that is none is unmatched and counts for nothing
(`Detector.malformed_outcome`), and the other rules are evaluated all the same.

Two fields are used as texts without a look at what they are: the script of a rule that runs one,
and the expected state of a service that is there.  Anything else in them trips the detector
(`Detector.Trips`), and then no rule counts and the fallback is given.  `Detector.evaluate_costs`
says that this is all that can go wrong where the probe answers.
-/

import TweakEngine.Proofs.RuleRuns

namespace TweakEngine

open Act Detection

variable {μ α : Type}

/-! ## What evaluators fail on -/

/-- A failure that is settled with the rule it is about. -/
def Failure.isMalformed (f : Failure) : Bool := f matches .malformed _

theorem Failure.isMalformed_iff {f : Failure} :
    f.isMalformed = true ↔ ∃ cause, f = .malformed cause := by
  cases f with
  | malformed cause => exact iff_of_true rfl ⟨cause, rfl⟩
  | _ =>
    refine iff_of_false Bool.false_ne_true ?_
    rintro ⟨cause, hf⟩
    cases hf

/-- Something that is there and is no text. -/
def Datum.Untextual (d : Datum) : Prop := d.truthy = true ∧ ∀ s, d ≠ .text s

theorem Act.Returns.failsOnly {σ : Type} {a : Act σ α} {s : σ} (h : a.Returns s)
    (caught : Failure → Bool) : a.FailsOnly caught s := by
  obtain ⟨x, t, hx⟩ := h
  intro f hf
  rw [hx] at hf
  cases hf

theorem failsOnly_label {σ β : Type} [Labelled β] (d : Datum) (s : σ) :
    FailsOnly Failure.isMalformed (Act.result (Labelled.ofDatum d : Except Failure β)) s := by
  intro f hf
  rw [Act.on_result, Labelled.ofDatum] at hf
  split at hf <;> cases hf
  rfl

/-- A field that is used as a text is one, or that is the failure. -/
theorem trimmed_cases (d : Datum) : (¬d.Untextual ∧ ∃ s, trimmed d = .ok s) ∨
    (d.Untextual ∧ ∃ f, trimmed d = .error f ∧ f.isMalformed = false) := by
  cases hd : d.truthy with
  | false =>
    exact .inl ⟨fun h => absurd (hd.symm.trans h.1) Bool.false_ne_true, _, trimmed_of_not_truthy hd⟩
  | true =>
    unfold trimmed
    rw [hd]
    cases d with
    | text s => exact .inl ⟨fun h => h.2 s rfl, _, rfl⟩
    | _ => exact .inr ⟨⟨hd, fun s hs => by cases hs⟩, _, rfl, rfl⟩

namespace Detection

variable {probe : Probe μ} {h : Host μ}

theorem evaluateValue_failsOnly (hp : probe.Answers) (rule : Rule) (h : Host μ) :
    FailsOnly Failure.isMalformed (evaluateValue rule probe) h := by
  unfold evaluateValue
  split
  · exact failsOnly_pure _ _
  · refine .bind (failsOnly_label _ _) fun hive h₁ _ =>
      .bind ((hp.readValue _ _ _ _).failsOnly _) fun r h₂ _ => ?_
    split <;> exact failsOnly_pure _ _

theorem evaluateKey_failsOnly (hp : probe.Answers) (rule : Rule) (h : Host μ) :
    FailsOnly Failure.isMalformed (evaluateKey rule probe) h := by
  unfold evaluateKey
  split
  · exact failsOnly_pure _ _
  · exact .bind (failsOnly_label _ _) fun hive h₁ _ =>
      .bind ((hp.keyExists _ _ _).failsOnly _) fun there h₂ _ => failsOnly_pure _ _

theorem evaluateFile_failsOnly (hp : probe.Answers) (rule : Rule) (h : Host μ) :
    FailsOnly Failure.isMalformed (evaluateFile rule probe) h := by
  unfold evaluateFile
  split
  · exact failsOnly_pure _ _
  · exact .bind ((hp.pathExists _ _).failsOnly _) fun there h₁ _ => failsOnly_pure _ _

/-- Of a service that is there the expected state is used as a text. -/
theorem evaluateService_failsOnly (hp : probe.Answers) (rule : Rule) (h : Host μ) :
    FailsOnly Failure.isMalformed (evaluateService rule probe) h ↔
      ¬(rule.service.truthy = true ∧ rule.expectedState.Untextual ∧
        ∃ snapshot h', (probe.queryService rule.service).on h = (.ok snapshot, h') ∧
          snapshot.found = true) := by
  obtain ⟨snapshot, h₁, hsnapshot⟩ := hp.queryService rule.service h
  unfold evaluateService
  cases hservice : rule.service.truthy with
  | false => exact iff_of_true (failsOnly_pure _ _) fun hx => Bool.false_ne_true hx.1
  | true =>
    rw [Bool.not_true, if_neg Bool.false_ne_true, failsOnly_after hsnapshot]
    cases hfound : snapshot.found with
    | false =>
      refine iff_of_true (failsOnly_pure _ _) ?_
      rintro ⟨-, -, snapshot', h', hx, hfound'⟩
      cases hsnapshot.symm.trans hx
      exact Bool.false_ne_true (hfound.symm.trans hfound')
    | true =>
      rw [Bool.not_true, if_neg Bool.false_ne_true]
      rcases trimmed_cases rule.expectedState with ⟨hstate, s, hs⟩ | ⟨hstate, f, hf, hmalformed⟩
      · refine iff_of_true (.bind ?_ fun expected h₂ _ => ?_) fun hx => hstate hx.2.1
        · exact Returns.failsOnly ⟨s, h₁, by rw [Act.on_result, hs]⟩ _
        · split
          · exact failsOnly_pure _ _
          dsimp only
          split
          · exact failsOnly_pure _ _
          · exact .bind (failsOnly_label _ _) fun state h₃ _ => failsOnly_pure _ _
      · rw [failsOnly_bind_error (f := f) (by rw [Act.on_result, hf]), hmalformed]
        exact iff_of_false Bool.false_ne_true
          (not_not.mpr ⟨rfl, hstate, snapshot, h₁, hsnapshot, hfound⟩)

theorem evaluateScript_failsOnly (hp : probe.Answers) (rule : Rule) (timeout : Datum)
    (h : Host μ) : FailsOnly Failure.isMalformed (evaluateScript rule probe timeout) h ↔
      ¬rule.script.Untextual := by
  unfold evaluateScript
  rcases trimmed_cases rule.script with ⟨hscript, s, hs⟩ | ⟨hscript, f, hf, hmalformed⟩
  · refine iff_of_true (.bind ?_ fun script h₁ _ => ?_) hscript
    · exact Returns.failsOnly ⟨s, h, by rw [Act.on_result, hs]⟩ _
    split
    · exact failsOnly_pure _ _
    obtain ⟨r, h₂, hr, hstdout⟩ := hp.runDiagnostic rule.script timeout h₁
    rw [failsOnly_after hr]
    split
    · exact failsOnly_pure _ _
    split
    · exact failsOnly_pure _ _
    · obtain ⟨stdout, hout⟩ := Option.ne_none_iff_exists'.mp hstdout
      rw [hout]
      exact failsOnly_pure _ _
  · rw [failsOnly_bind_error (f := f) (by rw [Act.on_result, hf]), hmalformed]
    exact iff_of_false Bool.false_ne_true (not_not.mpr hscript)

end Detection
/-! ## Rules that trip -/

/-- Unmatched, and counting for nothing. -/
def Outcome.Void (o : Outcome Number) : Prop := o.matched = false ∧ o.confidence = .float 0

namespace Detector

variable {d : Detector μ} {rule : Rule} {kind : RuleKind}

/-- Custom evaluators give outcomes. -/
def Serves (d : Detector μ) : Prop :=
  ∀ key evaluate, Assoc.get? key d.evaluators = some evaluate → ∀ rule h, (evaluate rule).Returns h

/-- A rule trips the detector when a field is used as a text that is none: the script that is to be
run, or the state that is expected of a service that is there. -/
inductive Trips (d : Detector μ) (rule : Rule) (h : Host μ) : Prop
  | script (builtIn : Assoc.get? (Text.fold rule.type) d.evaluators = none)
      (type : Labelled.parse? rule.type = some RuleKind.powerShellScript)
      (untextual : rule.script.Untextual)
  | state (builtIn : Assoc.get? (Text.fold rule.type) d.evaluators = none)
      (type : Labelled.parse? rule.type = some RuleKind.serviceState)
      (named : rule.service.truthy = true) (untextual : rule.expectedState.Untextual)
      (found : ∃ snapshot h', (d.probe.queryService rule.service).on h = (.ok snapshot, h') ∧
        snapshot.found = true)

/-- A rule of an unknown type is unmatched and counts for nothing. -/
theorem evaluateRule_unknown (h : d.evaluatorOf rule = none) :
    d.evaluateRule rule = pure ⟨false, .float 0, "Unknown rule type: " ++ rule.type⟩ := by
  rw [evaluateRule, h]

theorem settle_error {f : Failure} (hf : ¬f.isMalformed = true) :
    settle rule (.error f) = (throw f : Call μ (Outcome Number)) := by
  cases f with
  | malformed cause => exact absurd rfl hf
  | _ => rfl

theorem evaluateRule_returns (hbuiltIn : Assoc.get? (Text.fold rule.type) d.evaluators = none)
    (hkind : Labelled.parse? rule.type = some kind) (h : Host μ) :
    (d.evaluateRule rule).Returns h ↔
      FailsOnly Failure.isMalformed (d.evaluateAs kind rule) h := by
  rw [evaluateRule_builtIn hbuiltIn hkind, Returns, FailsOnly, Act.on_bind, Act.on_attempt]
  rcases (d.evaluateAs kind rule).on h with ⟨f | o, h'⟩
  · by_cases hf : f.isMalformed = true
    · obtain ⟨cause, rfl⟩ := Failure.isMalformed_iff.mp hf
      refine iff_of_true ⟨_, _, rfl⟩ fun f hf => ?_
      cases hf
      rfl
    · refine iff_of_false ?_ fun hx => hf (hx f rfl)
      rintro ⟨o, s, hx⟩
      dsimp only at hx
      rw [settle_error hf] at hx
      cases hx
  · exact iff_of_true ⟨_, _, rfl⟩ (failsOnly_pure o h')

/-- **Where the probe answers, a rule has an outcome unless it trips.** -/
theorem evaluateRule_returns_iff (hp : d.probe.Answers) (hd : d.Serves) (rule : Rule)
    (h : Host μ) : (d.evaluateRule rule).Returns h ↔ ¬d.Trips rule h := by
  cases hcustom : Assoc.get? (Text.fold rule.type) d.evaluators with
  | some evaluate =>
    refine iff_of_true ?_ ?_
    · obtain ⟨o, h', ho⟩ := hd _ _ hcustom rule h
      refine ⟨o, h', ?_⟩
      rw [evaluateRule, evaluatorOf, hcustom]
      dsimp only
      rw [Act.on_bind, Act.on_attempt, ho]
      rfl
    · rintro (⟨hnone, -⟩ | ⟨hnone, -⟩) <;> cases hcustom.symm.trans hnone
  | none =>
    cases hkind : (Labelled.parse? rule.type : Option RuleKind) with
    | none =>
      have hunknown : d.evaluatorOf rule = none := by
        rw [evaluatorOf, hcustom, hkind]
        rfl
      refine iff_of_true ⟨_, h, by rw [evaluateRule_unknown hunknown, Act.on_pure]⟩ ?_
      · rintro (⟨-, htype, -⟩ | ⟨-, htype, -⟩) <;> cases hkind.symm.trans htype
    | some kind =>
      rw [evaluateRule_returns hcustom hkind]
      have hother : kind ≠ .powerShellScript → kind ≠ .serviceState → ¬d.Trips rule h := by
        rintro hscript hstate (⟨-, htype, -⟩ | ⟨-, htype, -⟩)
        · exact hscript (Option.some.inj (hkind.symm.trans htype))
        · exact hstate (Option.some.inj (hkind.symm.trans htype))
      cases kind with
      | registryValue =>
        exact iff_of_true (evaluateValue_failsOnly hp rule h) (hother (by decide) (by decide))
      | registryKey =>
        exact iff_of_true (evaluateKey_failsOnly hp rule h) (hother (by decide) (by decide))
      | fileExists =>
        exact iff_of_true (evaluateFile_failsOnly hp rule h) (hother (by decide) (by decide))
      | powerShellScript =>
        refine (evaluateScript_failsOnly hp rule d.scriptTimeout h).trans (not_congr ⟨?_, ?_⟩)
        · exact fun hx => .script hcustom hkind hx
        · rintro (⟨-, -, hx⟩ | ⟨-, htype, -⟩)
          · exact hx
          · cases hkind.symm.trans htype
      | serviceState =>
        refine (evaluateService_failsOnly hp rule h).trans (not_congr ⟨?_, ?_⟩)
        · rintro ⟨hnamed, hx, hfound⟩
          exact .state hcustom hkind hnamed hx hfound
        · rintro (⟨-, htype, -⟩ | ⟨-, -, hnamed, hx, hfound⟩)
          · cases hkind.symm.trans htype
          · exact ⟨hnamed, hx, hfound⟩

/-! ## Rules that count for nothing -/

/-- A rule of an unknown type, without a field that its kind needs, or with a hive that is none. -/
inductive Malformed (d : Detector μ) (rule : Rule) : Prop
  | unknown (type : d.evaluatorOf rule = none)
  | missing (builtIn : Assoc.get? (Text.fold rule.type) d.evaluators = none) {kind : RuleKind}
      (type : Labelled.parse? rule.type = some kind) {field : Datum}
      (needed : field ∈ rule.required kind) (empty : field.truthy = false)
  | hive (builtIn : Assoc.get? (Text.fold rule.type) d.evaluators = none) {kind : RuleKind}
      (type : Labelled.parse? rule.type = some kind)
      (registry : kind = .registryValue ∨ kind = .registryKey)
      (none : (Labelled.parse? rule.hive.display : Option Hive) = none)

/-- Without a field that it needs a rule is not evaluated any further. -/
theorem evaluateAs_missing {field : Datum} (hneeded : field ∈ rule.required kind)
    (hempty : field.truthy = false) : ∃ what, d.evaluateAs kind rule = pure (incomplete what) := by
  cases kind with
  | registryValue =>
    have hguard : (!rule.hive.truthy || !rule.keyPath.truthy || !rule.valueName.truthy) = true := by
      simp only [Rule.required, List.mem_cons, List.not_mem_nil, or_false] at hneeded
      rcases hneeded with rfl | rfl | rfl <;> simp [hempty]
    refine ⟨"registry rule", ?_⟩
    unfold evaluateAs evaluateValue
    exact if_pos hguard
  | registryKey =>
    have hguard : (!rule.hive.truthy || !rule.keyPath.truthy) = true := by
      simp only [Rule.required, List.mem_cons, List.not_mem_nil, or_false] at hneeded
      rcases hneeded with rfl | rfl <;> simp [hempty]
    refine ⟨"registry key rule", ?_⟩
    unfold evaluateAs evaluateKey
    exact if_pos hguard
  | serviceState =>
    obtain rfl := List.mem_singleton.mp hneeded
    refine ⟨"service rule", ?_⟩
    unfold evaluateAs evaluateService
    exact if_pos (by rw [hempty]; rfl)
  | fileExists =>
    obtain rfl := List.mem_singleton.mp hneeded
    refine ⟨"file rule", ?_⟩
    unfold evaluateAs evaluateFile
    exact if_pos (by rw [hempty]; rfl)
  | powerShellScript =>
    obtain rfl := List.mem_singleton.mp hneeded
    refine ⟨"PowerShell rule", ?_⟩
    unfold evaluateAs evaluateScript
    rw [trimmed_of_not_truthy hempty]
    rfl

/-- A registry rule whose hive is none is told to be malformed, unless it lacks a field as well. -/
theorem evaluateAs_hive (hregistry : kind = .registryValue ∨ kind = .registryKey)
    (hnone : (Labelled.parse? rule.hive.display : Option Hive) = none) :
    (∃ what, d.evaluateAs kind rule = pure (incomplete what)) ∨
      ∃ cause, d.evaluateAs kind rule = Act.result (.error (.malformed cause)) := by
  have hof : (Labelled.ofDatum rule.hive : Except Failure Hive) =
      .error (.malformed (.unknownLabel (Labelled.vocabulary Hive) rule.hive.quoted)) := by
    rw [Labelled.ofDatum, hnone]
  rcases hregistry with rfl | rfl
  · unfold evaluateAs evaluateValue
    dsimp only
    split
    · exact .inl ⟨_, rfl⟩
    · rw [hof]
      exact .inr ⟨_, rfl⟩
  · unfold evaluateAs evaluateKey
    dsimp only
    split
    · exact .inl ⟨_, rfl⟩
    · rw [hof]
      exact .inr ⟨_, rfl⟩

/-- **A malformed rule** is unmatched and counts for nothing. -/
theorem malformed_outcome (hrule : d.Malformed rule) (h : Host μ) :
    ∃ o h', (d.evaluateRule rule).on h = (.ok o, h') ∧ o.Void := by
  have hincomplete : Assoc.get? (Text.fold rule.type) d.evaluators = none →
      ∀ {kind : RuleKind}, Labelled.parse? rule.type = some kind →
      (∃ what, d.evaluateAs kind rule = pure (incomplete what)) →
      ∃ o h', (d.evaluateRule rule).on h = (.ok o, h') ∧ o.Void := by
    rintro hbuiltIn kind htype ⟨what, heval⟩
    refine ⟨incomplete what, h, evaluateRule_of_ok hbuiltIn htype ?_, rfl, rfl⟩
    rw [heval, Act.on_pure]
  cases hrule with
  | unknown hunknown => exact ⟨_, h, by rw [evaluateRule_unknown hunknown, Act.on_pure], rfl, rfl⟩
  | missing hbuiltIn htype hneeded hempty =>
    exact hincomplete hbuiltIn htype (evaluateAs_missing hneeded hempty)
  | hive hbuiltIn htype hregistry hnone =>
    rcases evaluateAs_hive (d := d) hregistry hnone with heval | ⟨cause, heval⟩
    · exact hincomplete hbuiltIn htype heval
    · rw [evaluateRule_builtIn hbuiltIn htype, Act.on_bind, Act.on_attempt, heval]
      exact ⟨_, _, rfl, rfl, rfl⟩

/-! ## All rules of a tweak -/

/-- No rule trips the detector when its turn comes. -/
def Passes (d : Detector μ) : List Rule → Host μ → Prop
  | [], _ => True
  | rule :: rules, h => ¬d.Trips rule h ∧ d.Passes rules ((d.evaluateRule rule).on h).2

/-- Rules have an outcome each, and the malformed ones count for nothing, unless one of them
trips. -/
theorem mapM_passes (hp : d.probe.Answers) (hd : d.Serves) (rules : List Rule) (h : Host μ) :
    (d.Passes rules h ∧ ∃ os h', (rules.mapM d.evaluateRule).on h = (.ok os, h') ∧
      List.Forall₂ (fun rule o => d.Malformed rule → o.Void) rules os) ∨
    (¬d.Passes rules h ∧ ∃ f h', (rules.mapM d.evaluateRule).on h = (.error f, h')) := by
  induction rules generalizing h with
  | nil => exact .inl ⟨trivial, [], h, rfl, .nil⟩
  | cons rule rules ih =>
    have htrips := evaluateRule_returns_iff hp hd rule h
    have hvoid := fun hm : d.Malformed rule => malformed_outcome hm h
    rw [List.mapM_cons, Passes]
    rw [Returns] at htrips
    revert htrips hvoid
    rcases hrule : (d.evaluateRule rule).on h with ⟨f | o, h₁⟩ <;> intro htrips hvoid
    · refine .inr ⟨fun hx => ?_, f, h₁, by rw [Act.on_bind, hrule]⟩
      obtain ⟨_, _, ho⟩ := htrips.mpr hx.1
      cases ho
    · have hpasses : ¬d.Trips rule h := htrips.mp ⟨o, h₁, rfl⟩
      have hfirst : d.Malformed rule → o.Void := fun hm => by
        obtain ⟨_, _, ho, hvoid⟩ := hvoid hm
        cases ho
        exact hvoid
      rw [Act.on_bind_of_ok hrule]
      rcases ih h₁ with ⟨hrest, os, h', hos, hall⟩ | ⟨hrest, f, h', hf⟩
      · refine .inl ⟨⟨hpasses, hrest⟩, o :: os, h', ?_, .cons hfirst hall⟩
        rw [Act.on_bind_of_ok hos]
        rfl
      · refine .inr ⟨fun hx => hrest hx.2, f, h', ?_⟩
        rw [Act.on_bind, hf]

/-- **What a malformed rule costs.**  Where the probe answers, a tweak that has rules, and that no
detector speaks for, has a status.  Unless a rule trips the detector it is detected: there is one
outcome for each rule, that of a malformed one counts for nothing, and together they make the
verdict.  If a rule trips, no outcome counts and the fallback is given. -/
theorem evaluate_costs (hp : d.probe.Answers) (hd : d.Serves) {t : Tweak} {rs : RuleSet}
    (hknown : Assoc.get? t.key d.wellKnown = none) (ht : t.rules = some rs) (hne : rs.rules ≠ [])
    (h : Host μ) : ∃ st h', (d.evaluate t).on h = (.ok st, h') ∧
      (st.canDetect = true ↔ d.Passes rs.rules (announced t rs h)) ∧
      (d.Passes rs.rules (announced t rs h) →
        ∃ os, List.Forall₂ (fun rule o => d.Malformed rule → o.Void) rs.rules os ∧
          ((rs.rules.mapM d.evaluateRule).on (announced t rs h)).1 = .ok os ∧
          st.isApplied = (Outcome.combine rs.logic os).matched ∧
          st.confidence = (Outcome.combine rs.logic os).confidence ∧
          st.message = (Outcome.combine rs.logic os).message) ∧
      (¬d.Passes rs.rules (announced t rs h) → st.isApplied = rs.fallback.isApplied) := by
  obtain ⟨h', hst⟩ := d.evaluate_on t h
  rcases mapM_passes hp hd rs.rules (announced t rs h) with
    ⟨hpasses, os, h₁, hos, hall⟩ | ⟨hpasses, f, h₁, hf⟩
  · rw [verdict_of_ok hknown ht hne (congrArg Prod.fst hos)] at hst
    exact ⟨_, h', hst, iff_of_true rfl hpasses, fun _ => ⟨os, hall, by rw [hos], rfl, rfl, rfl⟩,
      fun hx => absurd hpasses hx⟩
  · rw [verdict_of_error hknown ht hne (congrArg Prod.fst hf)] at hst
    refine ⟨_, h', hst, iff_of_false Bool.false_ne_true hpasses, fun hx => absurd hx hpasses,
      fun _ => ?_⟩
    dsimp only [fallbackStatus]
    rw [ht]
    rfl

end Detector
/-- A rule about a path that is taken. -/
def takenRule : Rule := { type := "file", filePath := .text "C:\\Demo" }

/-- A tweak with that rule and a rule that lacks its fields. -/
def lackingTweak : Tweak :=
  { id := "t", name := .text "T"
    rules := some { rules := [takenRule, { type := "registry" }], logic := .any } }

theorem lackingTweak_detected : ∃ st h',
    (wornDetector.evaluate lackingTweak).on { machine := () } = (.ok st, h') ∧
      st.canDetect = true := by
  obtain ⟨st, h', hst, hdetected, -, -⟩ := Detector.evaluate_costs (d := wornDetector)
    wornProbe_answers nofun (t := lackingTweak) rfl rfl nofun { machine := () }
  refine ⟨st, h', hst, hdetected.mpr ⟨?_, ?_, trivial⟩⟩
  · rintro (⟨-, htype, -⟩ | ⟨-, htype, -⟩) <;> revert htype <;> decide +kernel
  · rintro (⟨-, htype, -⟩ | ⟨-, htype, -⟩) <;> revert htype <;> decide +kernel

/-- A tweak with the rule about the path and one that expects of a service the state 4. -/
def trippingTweak : Tweak :=
  { id := "t", name := .text "T"
    rules := some
      { rules :=
          [takenRule, { type := "service", service := .text "Demo", expectedState := .int 4 }]
        logic := .any } }

/-- The first rule matches, but the second one trips the detector, and the tweak is not detected. -/
theorem trippingTweak_undetected :
    wornDetector.probe.Answers ∧
      (wornDetector.evaluateRule takenRule).succeeds { machine := () }
        (fun o _ => o.matched) = true ∧
      (wornDetector.evaluate trippingTweak).succeeds { machine := () }
        (fun st _ => !st.canDetect && !st.isApplied) = true :=
  ⟨wornProbe_answers, by decide +kernel, by decide +kernel⟩

end TweakEngine
