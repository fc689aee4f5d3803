/-
# Inverted rules

An inverted rule matches when its check does not hold.  Whatever a well-formed rule of a built-in
kind finds, the rule the other way round (`Rule.flipped`) asks the same, matches when the rule does
not, and is as sure (`Detector.flipped_opposed`).  So all rules of a list match exactly when it is
not the case that any of the list the other way round does.

A script without anything but blanks is no script to run.  Its rule is refused, and matches neither
way round (`blank_script_matches`).
-/

import TweakEngine.Proofs.RuleRuns

namespace TweakEngine

open Detection

variable {μ α : Type}

/-! ## Rules the other way round -/

/-- The rule the other way round. -/
def Rule.flipped (rule : Rule) : Rule := { rule with inverted := !rule.inverted }

/-- The rule set that is content with any of the rules the other way round. -/
def RuleSet.opposite (rs : RuleSet) : RuleSet :=
  { rs with logic := .any, rules := rs.rules.map Rule.flipped }

/-- Two questions that are answered to the same end, of which one matches where the other does
not, and which are as sure. -/
def Opposed (a b : Call μ (Outcome Number)) : Prop :=
  ∀ h, ∃ o o' h', a.on h = (.ok o, h') ∧ b.on h = (.ok o', h') ∧
    o'.matched = !o.matched ∧ o'.confidence = o.confidence

namespace Opposed

theorem outcome (rule : Rule) (holds : Bool) (observed : String) :
    Opposed (pure (Detection.outcome rule holds observed) : Call μ _)
      (pure (Detection.outcome rule.flipped holds observed)) := by
  intro h
  refine ⟨_, _, h, rfl, rfl, ?_, rfl⟩
  dsimp only [Detection.outcome, Rule.flipped]
  cases holds <;> cases rule.inverted <;> rfl

/-- What is asked before is answered the same. -/
theorem bind_of {a : Call μ α} {P : α → Prop}
    (ha : ∀ h, ∃ x h', a.on h = (.ok x, h') ∧ P x) {k k' : α → Call μ (Outcome Number)}
    (hk : ∀ x, P x → Opposed (k x) (k' x)) : Opposed (a >>= k) (a >>= k') := by
  intro h
  obtain ⟨x, h₁, hx, hP⟩ := ha h
  obtain ⟨o, o', h', ho, ho', hopposed⟩ := hk x hP h₁
  refine ⟨o, o', h', ?_, ?_, hopposed⟩
  · rw [Act.on_bind_of_ok hx, ho]
  · rw [Act.on_bind_of_ok hx, ho']

theorem bind {a : Call μ α} (ha : ∀ h, a.Returns h) {k k' : α → Call μ (Outcome Number)}
    (hk : ∀ x, Opposed (k x) (k' x)) : Opposed (a >>= k) (a >>= k') :=
  bind_of (P := fun _ => True)
    (fun h => let ⟨x, h', hx⟩ := ha h; ⟨x, h', hx, trivial⟩) fun x _ => hk x

/-- A known result is used. -/
theorem result_bind {x : α} {r : Except Failure α} (hr : r = .ok x)
    {k k' : α → Call μ (Outcome Number)} (hk : Opposed (k x) (k' x)) :
    Opposed (Act.result r >>= k) (Act.result r >>= k') := by
  subst hr
  exact hk

/-- Both take the same branch. -/
theorem ite {c c' : Prop} [Decidable c] [Decidable c'] (hc : c ↔ c')
    {a a' b b' : Call μ (Outcome Number)} (ha : Opposed a a') (hb : Opposed b b') :
    Opposed (if c then a else b) (if c' then a' else b') := by
  by_cases h : c
  · rwa [if_pos h, if_pos (hc.mp h)]
  · rwa [if_neg h, if_neg (mt hc.mpr h)]

/-- Both take the second branch. -/
theorem ite_neg {c c' : Prop} [Decidable c] [Decidable c'] (hc : ¬c) (hc' : ¬c')
    {a a' b b' : Call μ (Outcome Number)} (hb : Opposed b b') :
    Opposed (if c then a else b) (if c' then a' else b') := by
  rwa [if_neg hc, if_neg hc']

end Opposed

/-! ## Well-formed rules -/

/-- A text that names a start type or a run state, but for blanks at its ends. -/
def NamesState (s : String) : Prop :=
  (Labelled.parse? (Text.trim s) : Option StartupType).isSome = true ∨
    (Labelled.parse? (Text.trim s) : Option RunState).isSome = true

/-- A rule of a built-in kind whose required fields are texts that are not empty, whose hive is a
hive, and whose expected state, if it has one, is a start type or a run state. -/
structure Detector.WellFormed (d : Detector μ) (kind : RuleKind) (rule : Rule) : Prop where
  builtIn : Assoc.get? (Text.fold rule.type) d.evaluators = none
  type : Labelled.parse? rule.type = some kind
  required : ∀ x ∈ rule.required kind, ∃ s, x = .text s ∧ s ≠ ""
  hive : rule.hive.truthy = true → ∃ hive : Hive, Labelled.ofDatum rule.hive = .ok hive
  state : rule.expectedState.truthy = true → ∃ s, rule.expectedState = .text s ∧ NamesState s

/-- The script of a rule that runs one has something else than blanks. -/
def Rule.Runs (rule : Rule) (kind : RuleKind) : Prop :=
  kind = .powerShellScript → ∀ s, rule.script = .text s → Text.trim s ≠ ""

theorem Datum.truthy_of_text {d : Datum} (h : ∃ s, d = .text s ∧ s ≠ "") : d.truthy = true := by
  obtain ⟨s, rfl, hs⟩ := h
  exact bne_iff_ne.mpr hs

/-- The start type of no sort is a run state of no sort as well. -/
theorem runState_of_unknown {word : String}
    (h : (Labelled.parse? word : Option StartupType) = some .unknown) :
    (Labelled.parse? word : Option RunState) = some .unknown := by
  have hlabel : Labelled.normal (Labelled.label StartupType.unknown) = "unknown" := by
    decide +kernel
  have hconstant : Labelled.normal (Labelled.constant StartupType.unknown) = "unknown" := by
    decide +kernel
  have hword : Labelled.normal word = "unknown" := by
    unfold Labelled.parse? at h
    dsimp only at h
    split at h
    · next m hfound =>
      cases h
      have hsame := List.find?_some hfound
      rwa [hlabel, hconstant, Bool.or_self, beq_iff_eq] at hsame
    · -- no alias is the word for it
      obtain ⟨before, after, haliases, -⟩ := List.lookup_eq_some_iff.mp h
      have hmem : (Labelled.normal word, StartupType.unknown) ∈
          (Labelled.aliases : List (String × StartupType)) := by
        rw [haliases]
        exact List.mem_append_right _ List.mem_cons_self
      have hnone : ∀ x ∈ (Labelled.aliases : List (String × StartupType)), x.2 ≠ .unknown := by
        decide
      exact absurd rfl (hnone _ hmem)
  unfold Labelled.parse?
  rw [hword]
  decide +kernel

/-- A word for a state that is no start type, or the start type of no sort, is a run state. -/
theorem NamesState.runState {s : String} (hs : NamesState s)
    (hstartup : StartupType.ofDatum (.text (Text.trim s)) = .unknown) :
    ∃ state : RunState, Labelled.ofDatum (.text (Text.trim s)) = .ok state := by
  obtain ⟨state, hstate⟩ : ∃ state : RunState, Labelled.parse? (Text.trim s) = some state := by
    rcases hs with hnamed | hnamed
    · obtain ⟨startup, hparse⟩ := Option.isSome_iff_exists.mp hnamed
      have hof : StartupType.ofDatum (.text (Text.trim s)) = startup :=
        congrArg (·.getD StartupType.unknown) hparse
      have hunknown : startup = .unknown := hof.symm.trans hstartup
      exact ⟨_, runState_of_unknown (hunknown ▸ hparse)⟩
    · exact Option.isSome_iff_exists.mp hnamed
  exact ⟨state, by rw [Labelled.ofDatum, Datum.display, hstate]⟩

namespace Detection

variable {probe : Probe μ} {rule : Rule}

theorem evaluateValue_opposed (hp : probe.Answers) {hive : Hive}
    (hhive : Labelled.ofDatum rule.hive = .ok hive) (hset : rule.hive.truthy = true)
    (hpath : rule.keyPath.truthy = true) (hname : rule.valueName.truthy = true) :
    Opposed (evaluateValue rule probe) (evaluateValue rule.flipped probe) := by
  have hguard : ¬(!rule.hive.truthy || !rule.keyPath.truthy || !rule.valueName.truthy) = true := by
    rw [hset, hpath, hname]
    exact Bool.false_ne_true
  unfold evaluateValue
  refine .ite_neg hguard hguard (.result_bind hhive (.bind (hp.readValue _ _ _) fun r => ?_))
  split <;> exact .outcome rule _ _

theorem evaluateKey_opposed (hp : probe.Answers) {hive : Hive}
    (hhive : Labelled.ofDatum rule.hive = .ok hive) (hset : rule.hive.truthy = true)
    (hpath : rule.keyPath.truthy = true) :
    Opposed (evaluateKey rule probe) (evaluateKey rule.flipped probe) := by
  have hguard : ¬(!rule.hive.truthy || !rule.keyPath.truthy) = true := by
    rw [hset, hpath]
    exact Bool.false_ne_true
  unfold evaluateKey
  exact .ite_neg hguard hguard
    (.result_bind hhive (.bind (hp.keyExists _ _) fun there => .outcome rule _ _))

theorem evaluateFile_opposed (hp : probe.Answers) (hpath : rule.filePath.truthy = true) :
    Opposed (evaluateFile rule probe) (evaluateFile rule.flipped probe) := by
  have hguard : ¬(!rule.filePath.truthy) = true := by
    rw [hpath]
    exact Bool.false_ne_true
  unfold evaluateFile
  exact .ite_neg hguard hguard (.bind (hp.pathExists _) fun there => .outcome rule _ _)

theorem evaluateService_opposed (hp : probe.Answers) (hservice : rule.service.truthy = true)
    (hstate : rule.expectedState.truthy = true →
      ∃ s, rule.expectedState = .text s ∧ NamesState s) :
    Opposed (evaluateService rule probe) (evaluateService rule.flipped probe) := by
  have hguard : ¬(!rule.service.truthy) = true := by
    rw [hservice]
    exact Bool.false_ne_true
  unfold evaluateService
  refine .ite_neg hguard hguard (.bind (hp.queryService _) fun snapshot => ?_)
  refine .ite Iff.rfl (.outcome rule _ _) ?_
  cases hexpected : rule.expectedState.truthy with
  | false => exact .result_bind (trimmed_of_not_truthy hexpected) (.outcome rule _ _)
  | true =>
    obtain ⟨s, hs, hnames⟩ := hstate hexpected
    rw [hs] at hexpected
    have htrimmed : trimmed rule.expectedState = .ok (Text.trim s) := by
      rw [hs, trimmed_text (bne_iff_ne.mp hexpected)]
    refine .result_bind htrimmed (.ite Iff.rfl (.outcome rule _ _) ?_)
    by_cases hstartup : StartupType.ofDatum (.text (Text.trim s)) = .unknown
    · obtain ⟨state, hof⟩ := hnames.runState hstartup
      exact .ite_neg (not_not.mpr hstartup) (not_not.mpr hstartup)
        (.result_bind hof (.outcome rule _ _))
    · dsimp only
      rw [if_pos hstartup, if_pos hstartup]
      exact .outcome rule _ _

theorem evaluateScript_opposed (hp : probe.Answers) (timeout : Datum) {s : String}
    (hs : rule.script = .text s) (hscript : Text.trim s ≠ "") :
    Opposed (evaluateScript rule probe timeout) (evaluateScript rule.flipped probe timeout) := by
  have hne : s ≠ "" := by
    rintro rfl
    exact hscript (by decide +kernel)
  have htrimmed : trimmed rule.script = .ok (Text.trim s) := by rw [hs, trimmed_text hne]
  unfold evaluateScript
  refine .result_bind htrimmed (.ite_neg hscript hscript ?_)
  refine .bind_of (fun h => hp.runDiagnostic _ _ h) fun r hr => ?_
  obtain ⟨stdout, hstdout⟩ := Option.ne_none_iff_exists'.mp hr
  refine .ite Iff.rfl (.outcome rule _ _) (.ite Iff.rfl (.outcome rule _ _) ?_)
  rw [hstdout]
  exact .outcome rule _ _

end Detection
namespace Detector

variable {d : Detector μ} {kind : RuleKind} {rule : Rule}

/-- **A well-formed rule and the rule the other way round.** -/
theorem flipped_opposed (hp : d.probe.Answers) (h : d.WellFormed kind rule)
    (hruns : rule.Runs kind) : Opposed (d.evaluateRule rule) (d.evaluateRule rule.flipped) := by
  have hset : ∀ {x}, x ∈ rule.required kind → x.truthy = true := fun hx =>
    Datum.truthy_of_text (h.required _ hx)
  have hevaluated : Opposed (d.evaluateAs kind rule) (d.evaluateAs kind rule.flipped) := by
    cases kind with
    | registryValue =>
      have hhive := hset List.mem_cons_self
      obtain ⟨hive, hof⟩ := h.hive hhive
      exact evaluateValue_opposed hp hof hhive (hset (.tail _ List.mem_cons_self))
        (hset (.tail _ (.tail _ List.mem_cons_self)))
    | registryKey =>
      have hhive := hset List.mem_cons_self
      obtain ⟨hive, hof⟩ := h.hive hhive
      exact evaluateKey_opposed hp hof hhive (hset (.tail _ List.mem_cons_self))
    | serviceState => exact evaluateService_opposed hp (hset List.mem_cons_self) h.state
    | fileExists => exact evaluateFile_opposed hp (hset List.mem_cons_self)
    | powerShellScript =>
      obtain ⟨s, hs, -⟩ := h.required _ List.mem_cons_self
      exact evaluateScript_opposed hp _ hs (hruns rfl s hs)
  intro host
  obtain ⟨o, o', h', ho, ho', hopposed⟩ := hevaluated host
  have hbuiltIn : Assoc.get? (Text.fold rule.flipped.type) d.evaluators = none := h.builtIn
  have htype : Labelled.parse? rule.flipped.type = some kind := h.type
  exact ⟨o, o', h', evaluateRule_of_ok h.builtIn h.type ho, evaluateRule_of_ok hbuiltIn htype ho',
    hopposed⟩

/-- Rules and the rules the other way round are gone through to the same end. -/
theorem mapM_opposed {rules : List Rule}
    (hrules : ∀ rule ∈ rules, Opposed (d.evaluateRule rule) (d.evaluateRule rule.flipped))
    (h : Host μ) : ∃ os os' h', (rules.mapM d.evaluateRule).on h = (.ok os, h') ∧
      ((rules.map Rule.flipped).mapM d.evaluateRule).on h = (.ok os', h') ∧
      os.length = rules.length ∧ os'.map Outcome.matched = os.map fun o => !o.matched := by
  induction rules generalizing h with
  | nil => exact ⟨[], [], h, rfl, rfl, rfl, rfl⟩
  | cons rule rules ih =>
    obtain ⟨o, o', h₁, ho, ho', hmatched, -⟩ := hrules rule List.mem_cons_self h
    obtain ⟨os, os', h', hos, hos', hlength, hall⟩ :=
      ih (fun rule hrule => hrules rule (List.mem_cons_of_mem _ hrule)) h₁
    refine ⟨o :: os, o' :: os', h', ?_, ?_, congrArg Nat.succ hlength, ?_⟩
    · rw [List.mapM_cons, Act.on_bind_of_ok ho, Act.on_bind_of_ok hos]
      rfl
    · rw [List.map_cons, List.mapM_cons, Act.on_bind_of_ok ho', Act.on_bind_of_ok hos']
      rfl
    · rw [List.map_cons, List.map_cons, hmatched, hall]

end Detector

/-- Of outcomes the other way round any matches when not all of the outcomes do. -/
theorem Outcome.combine_opposed {os os' : List (Outcome Number)} (hne : os ≠ [])
    (h : os'.map Outcome.matched = os.map fun o => !o.matched) :
    (combine .any os').matched = !(combine .all os).matched := by
  have hne' : os' ≠ [] := by
    rintro rfl
    exact hne (List.map_eq_nil_iff.mp h.symm)
  calc (combine .any os').matched
      = (os'.map Outcome.matched).any id := by
        rw [combine_matched .any hne', if_pos rfl, List.any_map, Function.id_comp]
    _ = (os.map fun o => !o.matched).any id := by rw [h]
    _ = !os.all Outcome.matched := by
        rw [List.any_map, Function.id_comp, List.not_all_eq_any_not]
    _ = !(combine .all os).matched := by rw [combine_matched .all hne, if_neg nofun]

/-- **Inversion is negation.**  Where a probe answers whatever it is asked, a well-formed rule and
the rule the other way round have opposite outcomes of the same grade.  A tweak is found applied by
all rules of a list exactly when it is not by any of the list the other way round. -/
theorem Detector.inversion_negates {d : Detector μ} (hp : d.probe.Answers) :
    (∀ kind rule, d.WellFormed kind rule → rule.Runs kind →
      Opposed (d.evaluateRule rule) (d.evaluateRule rule.flipped)) ∧
    ∀ (t : Tweak) (rs : RuleSet), Assoc.get? t.key d.wellKnown = none → t.rules = some rs →
      rs.logic = .all → rs.rules ≠ [] →
      (∀ rule ∈ rs.rules, ∃ kind, d.WellFormed kind rule ∧ rule.Runs kind) →
      ∀ h, ∃ st st' h₁ h₂,
        (d.evaluate t).on h = (.ok st, h₁) ∧
        (d.evaluate (t.withRules rs.opposite)).on h = (.ok st', h₂) ∧
        st.canDetect = true ∧ st'.canDetect = true ∧
        (st.isApplied = true ↔ st'.isApplied = false) := by
  refine ⟨fun kind rule h hruns => flipped_opposed hp h hruns,
    fun t rs hknown ht hlogic hne hwell h => ?_⟩
  obtain ⟨os, os', h', hos, hos', hlength, hall⟩ := mapM_opposed (d := d) (fun rule hrule => by
    obtain ⟨kind, hrule, hruns⟩ := hwell rule hrule
    exact flipped_opposed hp hrule hruns) h
  have hquiet : announced t rs h = h := by rw [announced, hlogic, if_neg nofun]
  rw [← hquiet] at hos
  have hv := verdict_of_ok hknown ht hne (congrArg Prod.fst hos)
  have hknown' : Assoc.get? (t.withRules rs.opposite).key d.wellKnown = none := hknown
  have hne' : rs.opposite.rules ≠ [] := mt List.map_eq_nil_iff.mp hne
  have hv' := verdict_of_ok hknown' rfl hne' (congrArg Prod.fst hos')
  obtain ⟨h₁, hst⟩ := d.evaluate_on t h
  obtain ⟨h₂, hst'⟩ := d.evaluate_on (t.withRules rs.opposite) h
  rw [hv] at hst
  rw [hv'] at hst'
  have hos_ne : os ≠ [] := by
    rintro rfl
    exact hne (List.length_eq_zero_iff.mp hlength.symm)
  have hopposed := Outcome.combine_opposed hos_ne hall
  refine ⟨_, _, h₁, h₂, hst, hst', rfl, rfl, ?_⟩
  dsimp only [ruled, RuleSet.opposite]
  rw [hopposed, hlogic, Bool.not_eq_false']

/-- A value, a service and a script that all have to match. -/
def wornRules : RuleSet where
  rules :=
    [{ type := "RegistryValue", hive := .text "HKCU", keyPath := .text "Demo"
       valueName := .text "level", expected := .int 1 },
     { type := "service", service := .text "Demo", expectedState := .text "manual" },
     { type := "PowerShellScript", script := .text "exit 0", inverted := true }]

theorem wornRules_wellFormed : ∀ rule ∈ wornRules.rules, ∃ kind,
    wornDetector.WellFormed kind rule ∧ rule.Runs kind := by
  intro rule hrule
  simp only [wornRules, List.mem_cons, List.not_mem_nil, or_false] at hrule
  rcases hrule with rfl | rfl | rfl
  · refine ⟨.registryValue, ⟨rfl, by decide +kernel, ?_, fun _ => ⟨.currentUser, by decide +kernel⟩,
      nofun⟩, nofun⟩
    intro x hx
    simp only [Rule.required, List.mem_cons, List.not_mem_nil, or_false] at hx
    rcases hx with rfl | rfl | rfl <;> exact ⟨_, rfl, by decide⟩
  · refine ⟨.serviceState, ⟨rfl, by decide +kernel, ?_, nofun,
      fun _ => ⟨_, rfl, .inl (by decide +kernel)⟩⟩, nofun⟩
    intro x hx
    exact ⟨_, List.mem_singleton.mp hx, by decide⟩
  · refine ⟨.powerShellScript, ⟨rfl, by decide +kernel, ?_, nofun, nofun⟩, ?_⟩
    · intro x hx
      exact ⟨_, List.mem_singleton.mp hx, by decide⟩
    · rintro - s hs
      obtain rfl := Datum.text.inj hs
      decide +kernel

/-- A tweak with these rules. -/
def wornTweak : Tweak := { id := "t", name := .text "T", rules := some wornRules }

theorem wornTweak_negated : ∃ st st' h₁ h₂,
    (wornDetector.evaluate wornTweak).on { machine := () } = (.ok st, h₁) ∧
    (wornDetector.evaluate (wornTweak.withRules wornRules.opposite)).on { machine := () } =
      (.ok st', h₂) ∧
    st.isApplied = false ∧ st'.isApplied = true := by
  obtain ⟨st, st', h₁, h₂, hst, hst', -, -, hiff⟩ :=
    (Detector.inversion_negates (d := wornDetector) wornProbe_answers).2
      wornTweak wornRules rfl rfl rfl nofun wornRules_wellFormed { machine := () }
  have hrun : (wornDetector.evaluate wornTweak).succeeds { machine := () }
      (fun st _ => !st.isApplied) = true := by decide +kernel
  obtain ⟨found, _, hfound, hunapplied⟩ := Act.of_succeeds hrun
  have hsame : found = st := Except.ok.inj (congrArg Prod.fst (hfound.symm.trans hst))
  have hfalse : st.isApplied = false := hsame ▸ (Bool.not_eq_true' _).mp hunapplied
  refine ⟨st, st', h₁, h₂, hst, hst', hfalse, ?_⟩
  rw [← Bool.not_eq_false, ← hiff, hfalse]
  exact Bool.false_ne_true

/-- A rule whose script has a blank and nothing else. -/
def blankScript : Rule := { type := "PowerShellScript", script := .text " " }

/-- Such a rule is well-formed as far as its fields go, but there is nothing to run, and it matches
neither way round. -/
theorem blank_script_matches :
    wornDetector.probe.Answers ∧ wornDetector.WellFormed .powerShellScript blankScript ∧
      ¬Opposed (wornDetector.evaluateRule blankScript)
        (wornDetector.evaluateRule blankScript.flipped) := by
  refine ⟨wornProbe_answers, ⟨rfl, by decide +kernel, ?_, nofun, nofun⟩, fun h => ?_⟩
  · intro x hx
    exact ⟨_, List.mem_singleton.mp hx, by decide⟩
  · obtain ⟨o, o', h', ho, ho', hmatched, -⟩ := h { machine := () }
    have hrun : (wornDetector.evaluateRule blankScript).succeeds { machine := () }
        (fun o _ => !o.matched) = true := by decide +kernel
    have hrun' : (wornDetector.evaluateRule blankScript.flipped).succeeds { machine := () }
        (fun o _ => !o.matched) = true := by decide +kernel
    obtain ⟨_, _, hx, hplain⟩ := Act.of_succeeds hrun
    obtain ⟨_, _, hx', hflipped⟩ := Act.of_succeeds hrun'
    cases ho.symm.trans hx
    cases ho'.symm.trans hx'
    rw [hmatched, hplain] at hflipped
    exact Bool.false_ne_true hflipped

end TweakEngine
