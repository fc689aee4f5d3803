/-
# Faults of definitions

A definition is read field by field.  Most of what can go wrong is a fault of the definition
(`Malformed.Only`), whatever its JSON value is: a value that is no object, a field that is
missing, a word that is not known.  The exceptions are the fields that are converted without a
check: the lists of operations and rules and the tags have to have items, a time limit has to be
an integer, and a grade of certainty or a weight a number.  `Converts` says of each sort of record
that these fields of it can be converted; then nothing but faults of the definition are left
(`Tweak.only_malformed`).
-/

import TweakEngine.Catalog.Reader
import TweakEngine.Proofs.Actions

namespace TweakEngine

/-- Whatever goes wrong is a fault of a definition. -/
def Malformed.Only {α : Type} (r : Except Failure α) : Prop :=
  ∀ f, r = .error f → ∃ cause, f = .malformed cause

namespace Malformed.Only

variable {α β : Type} {r : Except Failure α}

theorem ok (x : α) : Only (.ok x : Except Failure α) := nofun

theorem error (cause : Malformed) : Only (.error (.malformed cause) : Except Failure α) :=
  fun _ h => ⟨cause, (Except.error.inj h).symm⟩

/-- What succeeds does not go wrong. -/
theorem of_ok (h : ∃ x, r = .ok x) : Only r := by
  obtain ⟨x, rfl⟩ := h
  exact ok x

/-- One step after the other. -/
theorem bind {k : α → Except Failure β} (hr : Only r) (hk : ∀ x, r = .ok x → Only (k x)) :
    Only (r >>= k) := by
  intro f hf
  rcases r with e | x
  · obtain rfl : e = f := Except.error.inj hf
    exact hr e rfl
  · exact hk x rfl f hf

theorem map (g : α → β) (hr : Only r) : Only (g <$> r) := by
  intro f hf
  rcases r with e | x
  · exact hr f (by rw [← Except.error.inj hf])
  · exact nomatch hf

theorem mapM {read : α → Except Failure β} : ∀ {xs : List α}, (∀ x ∈ xs, Only (read x)) →
    Only (xs.mapM read)
  | [], _ => ok _
  | x :: xs, h => by
    rw [List.mapM_cons]
    exact bind (h x List.mem_cons_self) fun _ _ =>
      bind (mapM fun x' hx' => h x' (List.mem_cons_of_mem _ hx')) fun _ _ => ok _

end Malformed.Only

open Malformed

/-! ## Fields and words -/

theorem Fields.ofDatum_only (what : String) (d : Datum) : Only (Fields.ofDatum what d) := by
  cases d <;> first | exact .ok _ | exact .error _

theorem Fields.require_only (f : Fields) (name : String) : Only (f.require name) := by
  unfold Fields.require
  dsimp only
  split
  · exact .error _
  · split
    · exact .error _
    · exact .ok _
  · exact .ok _

namespace Labelled

variable {α : Type} [Labelled α]

theorem ofDatum_only (d : Datum) : Only (ofDatum d : Except Failure α) := by
  unfold ofDatum
  split
  · exact .ok _
  · exact .error _

theorem ofTag_only (numbers : Option (List (Int × α))) (d : Datum) : Only (ofTag numbers d) := by
  unfold ofTag
  dsimp only
  split
  · exact .error _
  · split
    · split
      · exact .ok _
      · exact .error _
    · split
      · exact .error _
      · split
        · exact .ok _
        · exact .error _
  · exact ofDatum_only _

end Labelled

theorem StartupType.ofTag_only (d : Datum) : Only (StartupType.ofTag d) := by
  unfold StartupType.ofTag
  split
  · exact .ok _
  · exact .ok _
  · exact .map _ (Labelled.ofDatum_only _)

/-! ## Operations -/

theorem RegistryOperation.only_malformed (d : Datum) : Only (RegistryOperation.ofDatum d) := by
  refine .bind (Fields.ofDatum_only _ d) fun f _ => ?_
  refine .bind (f.require_only _) fun _ _ => .bind (Labelled.ofTag_only _ _) fun _ _ => ?_
  exact .bind (f.require_only _) fun _ _ => .bind (Labelled.ofTag_only _ _) fun _ _ =>
    .bind (Labelled.ofTag_only _ _) fun _ _ => .ok _

theorem ServiceOperation.only_malformed (d : Datum) : Only (ServiceOperation.ofDatum d) := by
  refine .bind (Fields.ofDatum_only _ d) fun f _ => .bind (f.require_only _) fun _ _ => ?_
  exact .bind (Labelled.ofTag_only _ _) fun _ _ => .bind (StartupType.ofTag_only _) fun _ _ => .ok _

theorem FileOperation.only_malformed (d : Datum) : Only (FileOperation.ofDatum d) := by
  refine .bind (Fields.ofDatum_only _ d) fun f _ => .bind (f.require_only _) fun _ _ => ?_
  exact .bind (f.require_only _) fun _ _ => .bind (Labelled.ofTag_only _ _) fun _ _ => .ok _

/-- The time limit of a script can be converted. -/
def ScriptOperation.Converts (d : Datum) : Prop :=
  ∀ f, Fields.ofDatum "Script operation" d = .ok f →
    ∃ n, (f.getOr "timeoutSeconds" (.int 30)).toInt = .ok n

theorem ScriptOperation.only_malformed {d : Datum} (h : ScriptOperation.Converts d) :
    Only (ScriptOperation.ofDatum d) :=
  .bind (Fields.ofDatum_only _ d) fun f hf => .bind (f.require_only _) fun _ _ =>
    .bind (.of_ok (h f hf)) fun _ _ => .ok _

/-- A field has items, and all of them have a property. -/
def Fields.Lists (f : Fields) (names : List String) (P : Datum → Prop) : Prop :=
  ∃ items, ((f.find? names).getD (.list [])).iterate = .ok items ∧ ∀ d ∈ items, P d

theorem Fields.each_only {α : Type} {f : Fields} {names : List String} {P : Datum → Prop}
    {read : Datum → Except Failure α} (h : f.Lists names P) (hread : ∀ d, P d → Only (read d)) :
    Only (f.each names read) := by
  obtain ⟨items, hitems, hP⟩ := h
  unfold Fields.each
  rw [hitems]
  exact .mapM fun d hd => hread d (hP d hd)

/-- The lists of a set of operations have items, and the scripts can be converted. -/
def OperationSet.Converts (d : Datum) : Prop :=
  ∀ f, Fields.ofDatum "Operation set" d = .ok f →
    f.Lists ["registryOperations"] (fun _ => True) ∧
    f.Lists ["serviceOperations"] (fun _ => True) ∧
    f.Lists ["powerShellOperations", "scriptOperations"] ScriptOperation.Converts ∧
    f.Lists ["fileOperations"] fun _ => True

theorem OperationSet.only_malformed {d : Datum} (h : OperationSet.Converts d) :
    Only (OperationSet.ofDatum d) := by
  refine .bind (Fields.ofDatum_only _ d) fun f hf => ?_
  obtain ⟨hregistry, hservices, hscripts, hfiles⟩ := h f hf
  refine .bind (Fields.each_only hregistry fun d _ => RegistryOperation.only_malformed d) fun _ _ => ?_
  refine .bind (Fields.each_only hservices fun d _ => ServiceOperation.only_malformed d) fun _ _ => ?_
  refine .bind (Fields.each_only hscripts fun d => ScriptOperation.only_malformed) fun _ _ => ?_
  exact .bind (Fields.each_only hfiles fun d _ => FileOperation.only_malformed d) fun _ _ => .ok _

/-! ## Rules -/

/-- The numbers of a rule can be converted. -/
def Rule.Converts (d : Datum) : Prop :=
  ∀ f, Fields.ofDatum "Detection rule" d = .ok f →
    (∃ x, (f.getOr "confidence" (.float 0.8)).toFloat = .ok x) ∧
    ∃ x, (f.getOr "weight" (.float 1.0)).toFloat = .ok x

theorem Rule.only_malformed {d : Datum} (h : Rule.Converts d) : Only (Rule.ofDatum d) :=
  .bind (Fields.ofDatum_only _ d) fun f hf => .bind (.of_ok (h f hf).1) fun _ _ =>
    .bind (.of_ok (h f hf).2) fun _ _ => .ok _

/-- The number of a fallback can be converted. -/
def Fallback.Converts (d : Datum) : Prop :=
  ∀ f, Fields.ofDatum "Fallback behavior" d = .ok f →
    ∃ x, (f.getOr "confidence" (.float 0.0)).toFloat = .ok x

theorem Fallback.only_malformed {d : Datum} (h : Fallback.Converts d) : Only (Fallback.ofDatum d) :=
  .bind (Fields.ofDatum_only _ d) fun f hf => .bind (.of_ok (h f hf)) fun _ _ => .ok _

/-- The rules of a rule set are a list, and they and the fallback can be converted. -/
def RuleSet.Converts (d : Datum) : Prop :=
  match d with
  | .list items => ∀ item ∈ items, Rule.Converts item
  | d => ∀ f, Fields.ofDatum "Detection rules" d = .ok f →
    (∀ d, f.find? ["fallbackBehavior", "fallback"] = some d → Fallback.Converts d) ∧
    f.Lists ["rules"] Rule.Converts

theorem RuleSet.only_malformed {d : Datum} (h : RuleSet.Converts d) : Only (RuleSet.ofDatum d) := by
  cases d with
  | list items =>
    exact .bind (.mapM fun item hitem => Rule.only_malformed (h item hitem)) fun _ _ => .ok _
  | _ =>
    refine .bind (Fields.ofDatum_only _ _) fun f hf => ?_
    obtain ⟨hfallback, hrules⟩ := h f hf
    refine .bind ?_ fun _ _ =>
      .bind (Fields.each_only hrules fun d => Rule.only_malformed) fun _ _ => .ok _
    unfold Fields.fallback
    split
    · next d hd => exact Fallback.only_malformed (hfallback d hd)
    · exact .ok _

/-! ## Tweaks -/

/-- The fields of a definition that are converted without a check can be converted. -/
def Tweak.Converts (d : Datum) : Prop :=
  ∀ f, Fields.ofDatum "Tweak" d = .ok f →
    (∃ tags, f.tags = .ok tags) ∧
    (∀ d, f.find? ["applyOperations", "operations"] = some d → OperationSet.Converts d) ∧
    (∀ d, f.find? ["undoOperations"] = some d → OperationSet.Converts d) ∧
    ∀ d, f.find? ["detectionRules"] = some d → RuleSet.Converts d

/-- **Reading a definition.**  When the fields that are converted without a check can be
converted, all that can go wrong is a fault of the definition. -/
theorem Tweak.only_malformed {d : Datum} (h : Tweak.Converts d) (source : String) :
    Only (Tweak.ofDatum d source) := by
  refine .bind (Fields.ofDatum_only _ d) fun f hf => ?_
  obtain ⟨htags, hoperations, hundo, hrules⟩ := h f hf
  refine .bind ?_ fun _ _ => ?_
  · refine .bind (f.require_only _) fun _ _ => .bind (Labelled.ofTag_only _ _) fun _ _ => ?_
    refine .bind (.of_ok htags) fun _ _ => ?_
    dsimp only
    split
    · next d hd =>
      refine .bind (OperationSet.only_malformed (hoperations d hd)) fun _ _ => ?_
      split
      · next d hd => exact .bind (.map _ (OperationSet.only_malformed (hundo d hd))) fun _ _ => .ok _
      · exact .ok _
    · refine .bind (.ok _) fun _ _ => ?_
      split
      · next d hd => exact .bind (.map _ (OperationSet.only_malformed (hundo d hd))) fun _ _ => .ok _
      · exact .ok _
  · split
    · next d hd => exact .bind (RuleSet.only_malformed (hrules d hd)) fun _ _ => .ok _
    · exact .ok _

end TweakEngine
