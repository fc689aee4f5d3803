/-
# Definitions are read as they were written

A tweak that was read from a JSON file, with texts as its tags, can be written and read
again, and writing gives the same object (`Tweak.written_reads_back`).  The second reading is
the first up to the order of the tags and up to descriptive fields that are empty without
being texts: those are left out and come back as empty texts (`Tweak.settled`).  So when the
descriptive fields are texts (`Tweak.words`), every field of the tweak, of its operations,
of its rules and of their fallback is back.

Each sort of record has four facts: what reading guarantees (`readable_of_read`), that
reading what was written gives the record settled (`ofDatum_toDatum`), that settling does
not change what is written (`toDatum_settled`), and that it does nothing to a record in words
(`settled_of_worded`).
-/

import TweakEngine.Proofs.DefinitionFields
import Mathlib.Data.List.Sort

namespace TweakEngine

/-! ## Descriptive fields -/

namespace Datum

/-- Whether all values are texts. -/
def AreTexts (ds : List Datum) : Prop := ∀ d ∈ ds, d.text?.isSome = true

instance (ds : List Datum) : Decidable (AreTexts ds) :=
  inferInstanceAs (Decidable (∀ d ∈ ds, d.text?.isSome = true))

/-- A descriptive field as it is read back: one that is empty is the empty text. -/
def settled (d : Datum) : Datum := if d.truthy then d else .text ""

theorem unlessEmpty_settled (d : Datum) : d.settled.unlessEmpty = d.unlessEmpty := by
  rw [settled]
  split
  · rfl
  · next h => rw [unlessEmpty, unlessEmpty, if_neg h, if_neg (by decide)]

theorem settled_of_text {d : Datum} (h : d.text?.isSome = true) : d.settled = d := by
  obtain ⟨s, hs⟩ := Option.isSome_iff_exists.mp h
  cases d with
  | text s' =>
    rw [settled]
    split
    · rfl
    · next hempty =>
      have : s' = "" := by simpa [truthy] using hempty
      rw [this]
  | _ => cases hs

end Datum

theorem Fields.Holds.settled {f : Fields} {fields : List (String × Datum)} {name : String}
    {d : Datum} (hf : f.Holds fields) (h : (name, d.unlessEmpty) ∈ fields) :
    f.getOr name (.text "") = d.settled := by
  rw [Fields.getOr, hf.found h, Datum.settled, Datum.unlessEmpty]
  cases htruthy : d.truthy with
  | false => rfl
  | true =>
    have hnull : d.isNull = false := by
      cases d with
      | null => cases htruthy
      | _ => rfl
    rw [if_pos rfl, if_pos rfl, Datum.given?_of_not_null hnull, Option.getD_some]

/-- Records that are read back one by one are read back as a list. -/
theorem mapM_map_ok {α β : Type} {read : Datum → Except Failure β} {write : α → Datum}
    {back : α → β} : ∀ {xs : List α}, (∀ x ∈ xs, read (write x) = .ok (back x)) →
      (xs.map write).mapM read = .ok (xs.map back)
  | [], _ => rfl
  | x :: xs, h => by
    rw [List.map_cons, List.mapM_cons, h x List.mem_cons_self, ok_bind,
      mapM_map_ok fun x' hx' => h x' (List.mem_cons_of_mem _ hx')]
    rfl

namespace Fields

variable {f : Fields} {fields : List (String × Datum)} {what name : String} {names : List String}
  {j : Datum} {α β : Type} {read : Datum → Except Failure α}

theorem get_isJson (hj : j.isJson = true) (hf : ofDatum what j = .ok f) :
    (f.get name).isJson = true := by
  rw [get]
  cases h : f.find? [name] with
  | none => rfl
  | some d => exact find?_isJson hj hf h

/-- What is read one by one from a field of a JSON file is read from JSON values. -/
theorem of_each {xs : List α} (hj : j.isJson = true) (hf : ofDatum what j = .ok f)
    (h : f.each names read = .ok xs) :
    ∀ x ∈ xs, ∃ d : Datum, d.isJson = true ∧ read d = .ok x := by
  obtain ⟨items, hitems, h⟩ := ok_of_bind h
  have hjson : ((f.find? names).getD (.list [])).isJson = true := by
    cases hfind : f.find? names with
    | none => rfl
    | some d => exact find?_isJson hj hf hfind
  intro x hx
  obtain ⟨d, hd, hread⟩ := mem_of_mapM h x hx
  exact ⟨d, Datum.iterate_isJson hjson hitems d hd, hread⟩

/-- Records that were written as a list are read back one by one. -/
theorem each_map {write : β → Datum} {back : β → α} {xs : List β}
    (hf : f.find? names = some (.list (xs.map write)))
    (h : ∀ x ∈ xs, read (write x) = .ok (back x)) : f.each names read = .ok (xs.map back) := by
  rw [each, hf]
  exact mapM_map_ok h

end Fields

/-! ## Registry operations -/

namespace RegistryOperation

variable {op : RegistryOperation}

/-- A registry operation as a file gives it. -/
structure Readable (op : RegistryOperation) : Prop where
  keyPath : op.keyPath.isBlank = false
  value : op.value.payloadJson = op.value

/-- A registry operation as it is read back. -/
def settled (op : RegistryOperation) : RegistryOperation :=
  { op with description := op.description.settled }

theorem readable_of_read {d : Datum} (hj : d.isJson = true) (h : ofDatum d = .ok op) :
    op.Readable := by
  rw [ofDatum] at h
  obtain ⟨f, hf, h⟩ := ok_of_bind h
  obtain ⟨tag, -, h⟩ := ok_of_bind h
  obtain ⟨hive, -, h⟩ := ok_of_bind h
  obtain ⟨keyPath, hpath, h⟩ := ok_of_bind h
  obtain ⟨kind, -, h⟩ := ok_of_bind h
  obtain ⟨action, -, h⟩ := ok_of_bind h
  cases h
  exact ⟨(Fields.of_require hpath).2, Datum.payloadJson_of_isJson (Fields.get_isJson hj hf)⟩

theorem ofDatum_toDatum (h : op.Readable) : ofDatum op.toDatum = .ok op.settled := by
  rw [ofDatum, toDatum]
  refine Fields.bind_present (by simp only [List.map]; decide +kernel) fun f hf => ?_
  have hhive : f.require "hive" = .ok (.text (Labelled.label op.hive)) :=
    hf.require (by simp) (Labelled.Faithful.label_shows op.hive)
  have hpath : f.require "keyPath" = .ok op.keyPath := hf.require (by simp) h.keyPath
  have hname : f.get "valueName" = op.valueName := hf.get (by simp)
  have hvalue : f.get "value" = op.value := hf.get (by simp [h.value])
  have hkind : f.getOr "valueType" (.text "DWord") = .text (Labelled.label op.kind) :=
    hf.getOr (by simp [ValueKind.label]) rfl
  have haction : f.getOr "operation" (.text "SetValue") = .text (Labelled.label op.action) :=
    hf.getOr (by simp) rfl
  have hdescription : f.getOr "description" (.text "") = op.description.settled :=
    hf.settled (by simp)
  rw [hhive, ok_bind, Labelled.ofTag_label, ok_bind, hpath, ok_bind, hkind, Labelled.ofTag_label,
    ok_bind, haction, Labelled.ofTag_label, ok_bind, hname, hvalue, hdescription]
  rfl

theorem toDatum_settled : op.settled.toDatum = op.toDatum := by
  rw [toDatum, toDatum, settled, Datum.unlessEmpty_settled]

theorem settled_of_worded (h : op.description.text?.isSome = true) : op.settled = op := by
  rw [settled, Datum.settled_of_text h]

end RegistryOperation

/-! ## Service operations -/

namespace ServiceOperation

variable {op : ServiceOperation}

/-- A service operation as a file gives it. -/
def Readable (op : ServiceOperation) : Prop := op.service.isBlank = false

/-- A service operation as it is read back. -/
def settled (op : ServiceOperation) : ServiceOperation :=
  { op with description := op.description.settled }

theorem readable_of_read {d : Datum} (h : ofDatum d = .ok op) : op.Readable := by
  rw [ofDatum] at h
  obtain ⟨f, -, h⟩ := ok_of_bind h
  obtain ⟨service, hservice, h⟩ := ok_of_bind h
  obtain ⟨action, -, h⟩ := ok_of_bind h
  obtain ⟨startup, -, h⟩ := ok_of_bind h
  cases h
  exact (Fields.of_require hservice).2

theorem ofDatum_toDatum (h : op.Readable) : ofDatum op.toDatum = .ok op.settled := by
  rw [ofDatum, toDatum]
  refine Fields.bind_present (by simp only [List.map]; decide +kernel) fun f hf => ?_
  have hservice : f.require "serviceName" = .ok op.service := hf.require (by simp) h
  have haction : f.getOr "operation" (.text "Disable") = .text (Labelled.label op.action) :=
    hf.getOr (by simp) rfl
  have hstartup : f.get "startupType" = .ofLabel? op.startup := hf.get (by simp)
  have hdescription : f.getOr "description" (.text "") = op.description.settled :=
    hf.settled (by simp)
  rw [hservice, ok_bind, haction, Labelled.ofTag_label, ok_bind, hstartup,
    StartupType.ofTag_ofLabel?, ok_bind, hdescription]
  rfl

theorem toDatum_settled : op.settled.toDatum = op.toDatum := by
  rw [toDatum, toDatum, settled, Datum.unlessEmpty_settled]

theorem settled_of_worded (h : op.description.text?.isSome = true) : op.settled = op := by
  rw [settled, Datum.settled_of_text h]

end ServiceOperation

/-! ## Scripts -/

namespace ScriptOperation

variable {op : ScriptOperation}

/-- A script operation as a file gives it. -/
def Readable (op : ScriptOperation) : Prop := op.script.isBlank = false

/-- A script operation as it is read back. -/
def settled (op : ScriptOperation) : ScriptOperation :=
  { op with description := op.description.settled }

theorem readable_of_read {d : Datum} (h : ofDatum d = .ok op) : op.Readable := by
  rw [ofDatum] at h
  obtain ⟨f, -, h⟩ := ok_of_bind h
  obtain ⟨script, hscript, h⟩ := ok_of_bind h
  obtain ⟨timeout, -, h⟩ := ok_of_bind h
  cases h
  exact (Fields.of_require hscript).2

theorem ofDatum_toDatum (h : op.Readable) : ofDatum op.toDatum = .ok op.settled := by
  rw [ofDatum, toDatum]
  refine Fields.bind_present (by simp only [List.map]; decide +kernel) fun f hf => ?_
  have hscript : f.require "script" = .ok op.script := hf.require (by simp) h
  have htimeout : f.getOr "timeoutSeconds" (.int 30) = .int op.timeout := hf.getOr (by simp) rfl
  have hadmin : f.find? ["runAsAdmin"] = some (.bool op.elevated) := hf.first (by simp) rfl _
  -- the reader prefers a name that is not written
  have helevated : f.find? ["runElevated", "runAsAdmin"] = some (.bool op.elevated) := by
    rw [Fields.find?_cons, hf.lost (by simp only [List.map]; decide +kernel), Option.none_or, hadmin]
  have hrevert : f.get "revertScript" = op.revert := hf.get (by simp)
  have hdescription : f.getOr "description" (.text "") = op.description.settled :=
    hf.settled (by simp)
  rw [hscript, ok_bind, htimeout, Datum.toInt, ok_bind, helevated, hrevert, hdescription]
  rfl

theorem toDatum_settled : op.settled.toDatum = op.toDatum := by
  rw [toDatum, toDatum, settled, Datum.unlessEmpty_settled]

theorem settled_of_worded (h : op.description.text?.isSome = true) : op.settled = op := by
  rw [settled, Datum.settled_of_text h]

end ScriptOperation

/-! ## File operations -/

namespace FileOperation

variable {op : FileOperation}

/-- A file operation as a file gives it. -/
def Readable (op : FileOperation) : Prop := op.path.isBlank = false

/-- A file operation as it is read back. -/
def settled (op : FileOperation) : FileOperation :=
  { op with description := op.description.settled }

theorem readable_of_read {d : Datum} (h : ofDatum d = .ok op) : op.Readable := by
  rw [ofDatum] at h
  obtain ⟨f, -, h⟩ := ok_of_bind h
  obtain ⟨path, hpath, h⟩ := ok_of_bind h
  obtain ⟨tag, -, h⟩ := ok_of_bind h
  obtain ⟨action, -, h⟩ := ok_of_bind h
  cases h
  exact (Fields.of_require hpath).2

theorem ofDatum_toDatum (h : op.Readable) : ofDatum op.toDatum = .ok op.settled := by
  rw [ofDatum, toDatum]
  refine Fields.bind_present (by simp only [List.map]; decide +kernel) fun f hf => ?_
  have hpath : f.require "path" = .ok op.path := hf.require (by simp) h
  have haction : f.require "operation" = .ok (.text (Labelled.label op.action)) :=
    hf.require (by simp) (Labelled.Faithful.label_shows op.action)
  have hcontent : f.get "content" = op.content := hf.get (by simp)
  have htarget : (f.find? ["targetPath", "newPath"]).getD .null = op.target := by
    rw [hf.either (d := op.target) (by simp) (by simp only [List.map]; decide +kernel),
      Datum.given?_getD]
  have hcreate : f.getOr "createDirectories" (.bool true) = .bool op.createDirectories :=
    hf.getOr (by simp) rfl
  have hbackup : f.get "backupPath" = op.backup := hf.get (by simp)
  have hdescription : f.getOr "description" (.text "") = op.description.settled :=
    hf.settled (by simp)
  rw [hpath, ok_bind, haction, ok_bind, Labelled.ofTag_label, ok_bind, hcontent, htarget, hcreate,
    hbackup, hdescription]
  rfl

theorem toDatum_settled : op.settled.toDatum = op.toDatum := by
  rw [toDatum, toDatum, settled, Datum.unlessEmpty_settled]

theorem settled_of_worded (h : op.description.text?.isSome = true) : op.settled = op := by
  rw [settled, Datum.settled_of_text h]

end FileOperation

/-! ## Sets of operations -/

namespace OperationSet

variable {ops : OperationSet}

/-- A set of operations as a file gives it. -/
structure Readable (ops : OperationSet) : Prop where
  registry : ∀ op ∈ ops.registry, op.Readable
  services : ∀ op ∈ ops.services, op.Readable
  scripts : ∀ op ∈ ops.scripts, op.Readable
  files : ∀ op ∈ ops.files, op.Readable

/-- A set of operations as it is read back. -/
def settled (ops : OperationSet) : OperationSet where
  registry := ops.registry.map RegistryOperation.settled
  services := ops.services.map ServiceOperation.settled
  scripts := ops.scripts.map ScriptOperation.settled
  files := ops.files.map FileOperation.settled

/-- The descriptions of all operations. -/
def words (ops : OperationSet) : List Datum :=
  ops.registry.map RegistryOperation.description ++ ops.services.map ServiceOperation.description ++
    ops.scripts.map ScriptOperation.description ++ ops.files.map FileOperation.description

theorem readable_of_read {d : Datum} (hj : d.isJson = true) (h : ofDatum d = .ok ops) :
    ops.Readable := by
  rw [ofDatum] at h
  obtain ⟨f, hf, h⟩ := ok_of_bind h
  obtain ⟨registry, hregistry, h⟩ := ok_of_bind h
  obtain ⟨services, hservices, h⟩ := ok_of_bind h
  obtain ⟨scripts, hscripts, h⟩ := ok_of_bind h
  obtain ⟨files, hfiles, h⟩ := ok_of_bind h
  cases h
  constructor <;> intro op hop
  · obtain ⟨d, hd, hread⟩ := Fields.of_each hj hf hregistry op hop
    exact RegistryOperation.readable_of_read hd hread
  · obtain ⟨d, -, hread⟩ := Fields.of_each hj hf hservices op hop
    exact ServiceOperation.readable_of_read hread
  · obtain ⟨d, -, hread⟩ := Fields.of_each hj hf hscripts op hop
    exact ScriptOperation.readable_of_read hread
  · obtain ⟨d, -, hread⟩ := Fields.of_each hj hf hfiles op hop
    exact FileOperation.readable_of_read hread

theorem ofDatum_toDatum (h : ops.Readable) : ofDatum ops.toDatum = .ok ops.settled := by
  rw [ofDatum, toDatum]
  refine Fields.bind_object (by simp only [List.map]; decide +kernel) fun f hf => ?_
  have hregistry : f.find? ["registryOperations"] =
      some (.list (ops.registry.map RegistryOperation.toDatum)) := hf.first (by simp) rfl _
  have hservices : f.find? ["serviceOperations"] =
      some (.list (ops.services.map ServiceOperation.toDatum)) := hf.first (by simp) rfl _
  have hscripts : f.find? ["powerShellOperations", "scriptOperations"] =
      some (.list (ops.scripts.map ScriptOperation.toDatum)) := hf.first (by simp) rfl _
  have hfiles : f.find? ["fileOperations"] =
      some (.list (ops.files.map FileOperation.toDatum)) := hf.first (by simp) rfl _
  rw [Fields.each_map hregistry fun op hop => RegistryOperation.ofDatum_toDatum (h.registry op hop),
    ok_bind,
    Fields.each_map hservices fun op hop => ServiceOperation.ofDatum_toDatum (h.services op hop),
    ok_bind,
    Fields.each_map hscripts fun op hop => ScriptOperation.ofDatum_toDatum (h.scripts op hop),
    ok_bind, Fields.each_map hfiles fun op hop => FileOperation.ofDatum_toDatum (h.files op hop)]
  rfl

theorem toDatum_settled : ops.settled.toDatum = ops.toDatum := by
  simp only [toDatum, settled, List.map_map, Function.comp_def, RegistryOperation.toDatum_settled,
    ServiceOperation.toDatum_settled, ScriptOperation.toDatum_settled, FileOperation.toDatum_settled]

theorem settled_of_worded (h : Datum.AreTexts ops.words) : ops.settled = ops := by
  simp only [words, Datum.AreTexts, List.forall_mem_append, List.forall_mem_map] at h
  obtain ⟨⟨⟨hregistry, hservices⟩, hscripts⟩, hfiles⟩ := h
  rw [settled,
    List.map_congr_left fun op hop => RegistryOperation.settled_of_worded (hregistry op hop),
    List.map_congr_left fun op hop => ServiceOperation.settled_of_worded (hservices op hop),
    List.map_congr_left fun op hop => ScriptOperation.settled_of_worded (hscripts op hop),
    List.map_congr_left fun op hop => FileOperation.settled_of_worded (hfiles op hop),
    List.map_id', List.map_id', List.map_id', List.map_id']

end OperationSet

/-! ## Detection rules -/

namespace Rule

variable {r : Rule}

/-- A rule as a file gives it. -/
structure Readable (r : Rule) : Prop where
  success : r.success.isNull = false
  failure : r.failure.isNull = false

/-- A rule as it is read back. -/
def settled (r : Rule) : Rule := { r with description := r.description.settled }

theorem readable_of_read {d : Datum} (h : ofDatum d = .ok r) : r.Readable := by
  rw [ofDatum] at h
  obtain ⟨f, -, h⟩ := ok_of_bind h
  obtain ⟨confidence, -, h⟩ := ok_of_bind h
  obtain ⟨weight, -, h⟩ := ok_of_bind h
  cases h
  exact ⟨Fields.getOr_not_null rfl, Fields.getOr_not_null rfl⟩

theorem ofDatum_toDatum (h : r.Readable) : ofDatum r.toDatum = .ok r.settled := by
  rw [ofDatum, toDatum]
  refine Fields.bind_present (by simp only [List.map]; decide +kernel) fun f hf => ?_
  have hconfidence : f.getOr "confidence" (.float 0.8) = .float r.confidence :=
    hf.getOr (by simp) rfl
  have hweight : f.getOr "weight" (.float 1.0) = .float r.weight := hf.getOr (by simp) rfl
  have htype : f.getOr "type" (.text "RegistryValue") = .text r.type := hf.getOr (by simp) rfl
  have hhive : f.get "hive" = r.hive := hf.get (by simp)
  have hpath : f.get "keyPath" = r.keyPath := hf.get (by simp)
  have hname : f.get "valueName" = r.valueName := hf.get (by simp)
  have hexpected : f.get "expectedValue" = r.expected := hf.get (by simp)
  have hkind : f.getOr "valueType" (.text "DWord") = .text r.valueType := hf.getOr (by simp) rfl
  have hservice : f.get "serviceName" = r.service := hf.get (by simp)
  have hstate : (f.find? ["expectedServiceState", "expectedState"]).getD .null =
      r.expectedState := by
    rw [hf.either (d := r.expectedState) (by simp) (by simp only [List.map]; decide +kernel),
      Datum.given?_getD]
  have hfile : f.get "filePath" = r.filePath := hf.get (by simp)
  have hscript : f.get "script" = r.script := hf.get (by simp)
  have hsuccess : f.getOr "successMessage" (.text "Tweak is applied") = r.success :=
    hf.getOr (by simp) h.success
  have hfailure : f.getOr "failureMessage" (.text "Tweak is not applied") = r.failure :=
    hf.getOr (by simp) h.failure
  have hinverted : f.getOr "inverted" (.bool false) = .bool r.inverted := hf.getOr (by simp) rfl
  have hdescription : f.getOr "description" (.text "") = r.description.settled :=
    hf.settled (by simp)
  rw [hconfidence, Datum.toFloat, ok_bind, hweight, Datum.toFloat, ok_bind, htype, hhive, hpath,
    hname, hexpected, hkind, hservice, hstate, hfile, hscript, hsuccess, hfailure, hinverted,
    hdescription]
  rfl

theorem toDatum_settled : r.settled.toDatum = r.toDatum := by
  rw [toDatum, toDatum, settled, Datum.unlessEmpty_settled]

theorem settled_of_worded (h : r.description.text?.isSome = true) : r.settled = r := by
  rw [settled, Datum.settled_of_text h]

end Rule

theorem Fallback.message_of_read {d : Datum} {b : Fallback} (h : ofDatum d = .ok b) :
    b.message.isNull = false := by
  rw [ofDatum] at h
  obtain ⟨f, -, h⟩ := ok_of_bind h
  obtain ⟨confidence, -, h⟩ := ok_of_bind h
  cases h
  exact Fields.getOr_not_null rfl

/-- The JSON form of a fallback. -/
def Fallback.written (b : Fallback) : Datum := .object
  [("isApplied", .bool b.isApplied), ("message", b.message), ("confidence", .float b.confidence)]

theorem Fallback.ofDatum_written {b : Fallback} (h : b.message.isNull = false) :
    ofDatum b.written = .ok b := by
  rw [ofDatum, written]
  refine Fields.bind_object (by simp only [List.map]; decide +kernel) fun f hf => ?_
  have hconfidence : f.getOr "confidence" (.float 0.0) = .float b.confidence :=
    hf.getOr (by simp) rfl
  have happlied : f.getOr "isApplied" (.bool false) = .bool b.isApplied := hf.getOr (by simp) rfl
  have hmessage : f.getOr "message" (.text "Could not detect tweak status") = b.message :=
    hf.getOr (by simp) h
  rw [hconfidence, Datum.toFloat, ok_bind, happlied, hmessage]
  rfl

namespace RuleSet

variable {rs : RuleSet}

/-- A rule set as a file gives it. -/
structure Readable (rs : RuleSet) : Prop where
  rules : ∀ r ∈ rs.rules, r.Readable
  message : rs.fallback.message.isNull = false

/-- A rule set as it is read back. -/
def settled (rs : RuleSet) : RuleSet := { rs with rules := rs.rules.map Rule.settled }

/-- The descriptions of all rules. -/
def words (rs : RuleSet) : List Datum := rs.rules.map Rule.description

theorem readable_of_read {d : Datum} (h : ofDatum d = .ok rs) : rs.Readable := by
  by_cases hd : ∃ items, d = .list items
  · obtain ⟨items, rfl⟩ := hd
    obtain ⟨rules, hrules, h⟩ := ok_of_bind h
    cases h
    refine ⟨fun r hr => ?_, rfl⟩
    obtain ⟨d, -, hread⟩ := mem_of_mapM hrules r hr
    exact Rule.readable_of_read hread
  · rw [ofDatum] at h
    · obtain ⟨f, -, h⟩ := ok_of_bind h
      obtain ⟨fallback, hfallback, h⟩ := ok_of_bind h
      obtain ⟨rules, hrules, h⟩ := ok_of_bind h
      cases h
      obtain ⟨items, -, hrules⟩ := ok_of_bind hrules
      refine ⟨fun r hr => ?_, ?_⟩
      · obtain ⟨d, -, hread⟩ := mem_of_mapM hrules r hr
        exact Rule.readable_of_read hread
      · rw [Fields.fallback] at hfallback
        split at hfallback
        · exact Fallback.message_of_read hfallback
        · cases hfallback; rfl
    · exact fun items e => hd ⟨items, e⟩

theorem ofDatum_toDatum (h : rs.Readable) : ofDatum rs.toDatum = .ok rs.settled := by
  rw [toDatum, ofDatum]
  · refine Fields.bind_present (by simp only [List.map]; decide +kernel) fun f hf => ?_
    have hbehavior : f.find? ["fallbackBehavior", "fallback"] = some rs.fallback.written :=
      hf.first (by simp [Fallback.written]) rfl _
    have hfallback : f.fallback = .ok rs.fallback := by
      rw [Fields.fallback, hbehavior]
      exact Fallback.ofDatum_written h.message
    have hrules : f.find? ["rules"] = some (.list (rs.rules.map Rule.toDatum)) :=
      hf.first (by simp) rfl _
    have htype : f.getOr "type" (.text "Registry") = .text rs.type := hf.getOr (by simp) rfl
    have hlogic : f.getOr "logic" (.text "ALL") = .text (Labelled.label rs.logic) :=
      hf.getOr (by simp) rfl
    have hcustom : f.get "customLogic" = rs.customLogic := hf.get (by simp)
    rw [hfallback, ok_bind,
      Fields.each_map hrules fun r hr => Rule.ofDatum_toDatum (h.rules r hr), ok_bind, htype,
      Fields.logicWord, hlogic, Datum.display, Datum.display, Labelled.Faithful.parse?_label, hcustom]
    rfl
  · exact fun _ h => Datum.noConfusion h

theorem toDatum_settled : rs.settled.toDatum = rs.toDatum := by
  simp only [toDatum, settled, List.map_map, Function.comp_def, Rule.toDatum_settled]

theorem settled_of_worded (h : Datum.AreTexts rs.words) : rs.settled = rs := by
  have hrules : ∀ r ∈ rs.rules, r.settled = r := fun r hr =>
    Rule.settled_of_worded (h _ (List.mem_map_of_mem hr))
  rw [settled, List.map_congr_left hrules, List.map_id']

end RuleSet

/-! ## Tags -/

theorem Text.sort_perm (xs : List String) : (Text.sort xs).Perm xs := List.mergeSort_perm ..

theorem Text.not_before {a b : String} : (!Text.before b a) = true ↔ a ≤ b := by
  rw [Text.before, Bool.not_eq_true', decide_eq_false_iff_not, String.not_lt]

/-- Sorted texts are in the order of code points. -/
theorem Text.pairwise_sort (xs : List String) : (Text.sort xs).Pairwise (· ≤ ·) := by
  refine (List.pairwise_mergeSort (fun a b c => ?_) (fun a b => ?_) xs).imp Text.not_before.mp
  · rw [Text.not_before, Text.not_before, Text.not_before]
    exact String.le_trans
  · rw [Bool.or_eq_true, Text.not_before, Text.not_before]
    exact String.le_total a b

/-- Sorted texts stay as they are. -/
theorem Text.sort_sort (xs : List String) : Text.sort (Text.sort xs) = Text.sort xs :=
  List.mergeSort_of_pairwise ((Text.pairwise_sort xs).imp Text.not_before.mpr)

namespace Datum

/-- The elements of a set are different. -/
theorem pairwise_dedup : ∀ items : List Datum,
    (dedup items).Pairwise fun a b => same a b = false
  | [] => .nil
  | d :: ds => by
    rw [dedup, List.pairwise_cons]
    refine ⟨fun e he => ?_, (pairwise_dedup ds).filter _⟩
    simpa using (List.mem_filter.mp he).2

theorem dedup_of_pairwise : ∀ {items : List Datum},
    (items.Pairwise fun a b => same a b = false) → dedup items = items
  | [], _ => rfl
  | d :: ds, h => by
    obtain ⟨hnew, hds⟩ := List.pairwise_cons.mp h
    rw [dedup, dedup_of_pairwise hds, List.filter_eq_self.mpr fun e he => by simp [hnew e he]]

theorem exists_texts : ∀ {items : List Datum}, AreTexts items →
    ∃ texts : List String, items = texts.map text
  | [], _ => ⟨[], rfl⟩
  | d :: ds, h => by
    obtain ⟨texts, rfl⟩ := exists_texts fun e he => h e (List.mem_cons_of_mem _ he)
    obtain ⟨s, hs⟩ := Option.isSome_iff_exists.mp (h d List.mem_cons_self)
    cases d with
    | text s' => exact ⟨s' :: texts, rfl⟩
    | _ => cases hs

theorem pairwise_texts {texts : List String} :
    ((texts.map text).Pairwise fun a b => same a b = false) ↔ texts.Nodup := by
  simp only [List.pairwise_map, same, beq_eq_false_iff_ne]
  rfl

/-- Different texts are the elements of their list. -/
theorem elements_texts {texts : List String} (h : texts.Nodup) :
    (list (texts.map text)).elements = .ok (texts.map text) := by
  have hhash : unhashable? (texts.map text) = none := by
    rw [unhashable?, List.find?_eq_none]
    rintro _ hd
    obtain ⟨s, -, rfl⟩ := List.mem_map.mp hd
    exact Bool.false_ne_true
  rw [elements, iterate, ok_bind, hhash, dedup_of_pairwise (pairwise_texts.mpr h)]
  rfl

theorem mapM_text? : ∀ texts : List String, (texts.map text).mapM text? = some texts
  | [] => rfl
  | s :: texts => by
    rw [List.map_cons, List.mapM_cons, mapM_text? texts]
    rfl

theorem filterMap_text? (texts : List String) : (texts.map text).filterMap text? = texts := by
  rw [List.filterMap_map]
  exact List.filterMap_some

theorem sorted_texts (texts : List String) :
    sorted (texts.map text) = .ok ((Text.sort texts).map text) := by
  rw [sorted, mapM_text?]

end Datum

/-- The tags of a definition are different. -/
theorem Fields.pairwise_tags {f : Fields} {tags : List Datum} (h : f.tags = .ok tags) :
    tags.Pairwise fun a b => Datum.same a b = false := by
  rw [Fields.tags] at h
  split at h
  · cases h; exact List.pairwise_singleton ..
  · obtain ⟨items, -, h⟩ := ok_of_bind h
    split at h
    · cases h
    · cases h; exact Datum.pairwise_dedup items

/-! ## Tweaks -/

namespace Tweak

/-- A tweak as a file gives it. -/
structure Readable (t : Tweak) : Prop where
  id : Text.isBlankText t.id = false
  name : t.name.isNull = false
  description : t.description.isNull = false
  category : t.category.isNull = false
  tags : t.tags.Pairwise fun a b => Datum.same a b = false
  operations : t.operations.Readable
  undo : ∀ ops ∈ t.undo, ops.Readable
  rules : ∀ rs ∈ t.rules, rs.Readable

/-- A tweak as it is read back. -/
def settled (t : Tweak) : Tweak :=
  { t with
    tags := (Text.sort (t.tags.filterMap Datum.text?)).map .text
    subCategory := t.subCategory.settled
    source := t.source.settled
    operations := t.operations.settled
    undo := t.undo.map OperationSet.settled
    rules := t.rules.map RuleSet.settled }

/-- The descriptive fields of a tweak and of its parts that are left out when they are
empty.  Reading takes them over from the file, and an absent one is an empty text. -/
def words (t : Tweak) : List Datum :=
  t.subCategory :: t.source ::
    (t.operations.words ++ (t.undo.map OperationSet.words).getD [] ++
      (t.rules.map RuleSet.words).getD [])

end Tweak

/-! ### Parts of a definition -/

namespace Fields

variable {f : Fields} {fields : List (String × Datum)} {j : Datum}

/-- The operations that the fields of a definition give. -/
def operations (f : Fields) : Except Failure OperationSet :=
  match f.find? ["applyOperations", "operations"] with
  | some d => OperationSet.ofDatum d
  | none => .ok {}

/-- The undo operations that the fields of a definition give. -/
def undo (f : Fields) : Except Failure (Option OperationSet) :=
  match f.find? ["undoOperations"] with
  | some d => some <$> OperationSet.ofDatum d
  | none => .ok none

theorem readable_operations {ops : OperationSet} (hj : j.isJson = true)
    (hf : ofDatum "Tweak" j = .ok f) (h : f.operations = .ok ops) : ops.Readable := by
  rw [operations] at h
  split at h
  · next d hd => exact OperationSet.readable_of_read (find?_isJson hj hf hd) h
  · cases h
    constructor <;> exact List.forall_mem_nil _

theorem readable_undo {undo : Option OperationSet} (hj : j.isJson = true)
    (hf : ofDatum "Tweak" j = .ok f) (h : f.undo = .ok undo) : ∀ ops ∈ undo, ops.Readable := by
  rw [Fields.undo] at h
  split at h
  · next d hd =>
    cases hread : OperationSet.ofDatum d with
    | error e => rw [hread] at h; cases h
    | ok ops =>
      rw [hread] at h
      cases h
      intro ops' hops
      cases hops
      exact OperationSet.readable_of_read (find?_isJson hj hf hd) hread
  · cases h
    exact fun ops hops => (Option.not_mem_none ops hops).elim

/-- Different texts that were written as tags are read back. -/
theorem Holds.tags {texts : List String} (hf : f.Holds fields)
    (h : ("tags", .list (texts.map .text)) ∈ fields) (hn : texts.Nodup) :
    f.tags = .ok (texts.map .text) := by
  have hfound : f.getOr "tags" (.list []) = .list (texts.map .text) := hf.getOr h rfl
  rw [Fields.tags, hfound]
  exact Datum.elements_texts hn

theorem Holds.operations {ops : OperationSet} (hf : f.Holds fields)
    (h : ("applyOperations", ops.toDatum) ∈ fields) (hops : ops.Readable) :
    f.operations = .ok ops.settled := by
  rw [Fields.operations, hf.first h rfl]
  exact OperationSet.ofDatum_toDatum hops

theorem Holds.undo {undo : Option OperationSet} (hf : f.Holds fields)
    (h : ("undoOperations", (undo.map OperationSet.toDatum).getD .null) ∈ fields)
    (hundo : ∀ ops ∈ undo, ops.Readable) : f.undo = .ok (undo.map OperationSet.settled) := by
  rw [Fields.undo, hf.found h]
  cases undo with
  | none => rfl
  | some ops =>
    show some <$> OperationSet.ofDatum ops.toDatum = _
    rw [OperationSet.ofDatum_toDatum (hundo ops rfl)]
    rfl

end Fields

namespace Tweak

variable {t : Tweak} {j : Datum} {source : String} {texts : List String}

/-- A tweak is read part by part. -/
theorem ofFields_eq (f : Fields) (source : String) : ofFields f source = (do
    let id ← f.require "id"
    let severity ← Labelled.ofTag none (f.getOr "severity" (.text "Low"))
    let tags ← f.tags
    let operations ← f.operations
    let undo ← f.undo
    return {
      id := id.display, severity, tags, operations, undo
      name := f.getOr "name" (.text id.display)
      description := f.getOr "description" (.text "")
      category := f.getOr "category" (.text "")
      subCategory := f.getOr "subCategory" (.text "")
      requiresRestart := (f.getOr "requiresRestart" (.bool false)).truthy
      isReversible := (f.getOr "isReversible" (.bool true)).truthy
      source := f.getOr "source" (.text source)
      version := (f.getOr "version" (.text "1.0.0")).display
      documentationUrl := f.get "documentationUrl" }) := by
  rw [ofFields, Fields.operations, Fields.undo]
  cases f.find? ["applyOperations", "operations"] <;> cases f.find? ["undoOperations"] <;> rfl

theorem readable_of_fields {f : Fields} (hj : j.isJson = true)
    (hf : Fields.ofDatum "Tweak" j = .ok f) (h : ofFields f source = .ok t) : t.Readable := by
  rw [ofFields_eq] at h
  obtain ⟨id, hid, h⟩ := ok_of_bind h
  obtain ⟨severity, -, h⟩ := ok_of_bind h
  obtain ⟨tags, htags, h⟩ := ok_of_bind h
  obtain ⟨operations, hoperations, h⟩ := ok_of_bind h
  obtain ⟨undo, hundo, h⟩ := ok_of_bind h
  cases h
  obtain ⟨hfound, hshows⟩ := Fields.of_require hid
  exact {
    id := Datum.display_shows (Fields.find?_isJson hj hf hfound) hshows
    name := Fields.getOr_not_null rfl
    description := Fields.getOr_not_null rfl
    category := Fields.getOr_not_null rfl
    tags := Fields.pairwise_tags htags
    operations := Fields.readable_operations hj hf hoperations
    undo := Fields.readable_undo hj hf hundo
    rules := fun rs hrs => (Option.not_mem_none rs hrs).elim }

theorem readable_of_read (hj : j.isJson = true) (h : ofDatum j source = .ok t) : t.Readable := by
  rw [ofDatum] at h
  obtain ⟨f, hf, h⟩ := ok_of_bind h
  obtain ⟨t₀, ht₀, h⟩ := ok_of_bind h
  have hread := readable_of_fields hj hf ht₀
  split at h
  · obtain ⟨rs, hrs, h⟩ := ok_of_bind h
    cases h
    refine { hread with rules := fun rs' hrs' => ?_ }
    cases hrs'
    exact RuleSet.readable_of_read hrs
  · cases h; exact hread

/-- A readable tweak with texts as tags is written, and read back as it is settled. -/
theorem ofDatum_written (h : t.Readable) (htags : t.tags = texts.map .text) :
    ∃ d, t.toDatum = .ok d ∧ ofDatum d "" = .ok t.settled := by
  have hnodup : (Text.sort texts).Nodup :=
    (Text.sort_perm texts).nodup_iff.mpr (Datum.pairwise_texts.mp (htags ▸ h.tags))
  refine ⟨_, by rw [toDatum, htags, Datum.sorted_texts, ok_bind]; rfl, ?_⟩
  rw [ofDatum]
  refine Fields.bind_present (by simp only [List.map]; decide +kernel) fun f hf => ?_
  have hid : f.require "id" = .ok (.text t.id) := hf.require (by simp) h.id
  have hseverity : f.getOr "severity" (.text "Low") = .text (Labelled.label t.severity) :=
    hf.getOr (by simp [Severity.label]) rfl
  have htags' : f.tags = .ok ((Text.sort texts).map .text) := hf.tags (by simp) hnodup
  have hoperations : f.operations = .ok t.operations.settled :=
    hf.operations (by simp) h.operations
  have hundo : f.undo = .ok (t.undo.map OperationSet.settled) := hf.undo (by simp) h.undo
  have hname : f.getOr "name" (.text t.id) = t.name := hf.getOr (by simp) h.name
  have hdescription : f.getOr "description" (.text "") = t.description :=
    hf.getOr (by simp) h.description
  have hcategory : f.getOr "category" (.text "") = t.category := hf.getOr (by simp) h.category
  have hsub : f.getOr "subCategory" (.text "") = t.subCategory.settled := hf.settled (by simp)
  have hrestart : f.getOr "requiresRestart" (.bool false) = .bool t.requiresRestart :=
    hf.getOr (by simp) rfl
  have hreversible : f.getOr "isReversible" (.bool true) = .bool t.isReversible :=
    hf.getOr (by simp) rfl
  have hsource : f.getOr "source" (.text "") = t.source.settled := hf.settled (by simp)
  have hversion : f.getOr "version" (.text "1.0.0") = .text t.version := hf.getOr (by simp) rfl
  have hurl : f.get "documentationUrl" = t.documentationUrl := hf.get (by simp)
  have hrules : f.find? ["detectionRules"] =
      ((t.rules.map RuleSet.toDatum).getD .null).given? := hf.found (by simp)
  rw [ofFields_eq, hid, ok_bind, hseverity, Labelled.ofTag_label, ok_bind, htags', ok_bind,
    hoperations, ok_bind, hundo, ok_bind, Datum.display, hname, hdescription, hcategory, hsub,
    hrestart, hreversible, hsource, hversion, hurl, hrules, settled, htags,
    Datum.filterMap_text?]
  cases hrules' : t.rules with
  | none => rfl
  | some rs =>
    show (RuleSet.ofDatum rs.toDatum >>= _) = _
    rw [RuleSet.ofDatum_toDatum (h.rules rs hrules')]
    rfl

theorem toDatum_settled (htags : t.tags = texts.map .text) : t.settled.toDatum = t.toDatum := by
  have htexts : t.settled.tags = (Text.sort texts).map .text := by
    rw [settled, htags, Datum.filterMap_text?]
  rw [toDatum, toDatum, htexts, htags, Datum.sorted_texts, Datum.sorted_texts, Text.sort_sort]
  simp only [settled, Datum.unlessEmpty_settled, OperationSet.toDatum_settled, Option.map_map,
    Function.comp_def, RuleSet.toDatum_settled]

theorem settled_of_worded (h : Datum.AreTexts t.words) : { t.settled with tags := t.tags } = t := by
  rw [words, Datum.AreTexts, List.forall_mem_cons, List.forall_mem_cons, List.forall_mem_append,
    List.forall_mem_append] at h
  obtain ⟨hsub, hsource, ⟨hoperations, hundo⟩, hrules⟩ := h
  have hundo' : t.undo.map OperationSet.settled = t.undo := by
    cases hu : t.undo with
    | none => rfl
    | some ops =>
      rw [hu] at hundo
      exact congrArg some (OperationSet.settled_of_worded hundo)
  have hrules' : t.rules.map RuleSet.settled = t.rules := by
    cases hr : t.rules with
    | none => rfl
    | some rs =>
      rw [hr] at hrules
      exact congrArg some (RuleSet.settled_of_worded hrules)
  rw [settled, Datum.settled_of_text hsub, Datum.settled_of_text hsource,
    OperationSet.settled_of_worded hoperations, hundo', hrules']

/-- **A definition is read as it was written.**  A tweak read from a JSON file, with texts as
its tags, is written as an object that is read again, and writing gives that object once
more.  When its descriptive fields are texts, every field is read back as it was, the
tags up to their order. -/
theorem written_reads_back (hj : j.isJson = true) (h : ofDatum j source = .ok t)
    (htags : Datum.AreTexts t.tags) :
    ∃ d t', t.toDatum = .ok d ∧ ofDatum d "" = .ok t' ∧ t'.toDatum = .ok d ∧
      (Datum.AreTexts t.words → t'.tags.Perm t.tags ∧ { t' with tags := t.tags } = t) := by
  obtain ⟨texts, htexts⟩ := Datum.exists_texts htags
  obtain ⟨d, hd, hback⟩ := ofDatum_written (readable_of_read hj h) htexts
  refine ⟨d, t.settled, hd, hback, (toDatum_settled htexts).trans hd, fun hwords =>
    ⟨?_, settled_of_worded hwords⟩⟩
  rw [settled, htexts, Datum.filterMap_text?]
  exact (Text.sort_perm texts).map _

end Tweak

/-- A definition with older names and numbers, a field that is null, an empty one and a tag
that stands twice. -/
def sampleDefinition : Datum := .object
  [("ID", .text "privacy.telemetry"), ("name", .null), ("subcategory", .text ""),
   ("severity", .int 1), ("tags", .list [.text "network", .text "data", .text "network"]),
   ("operations", .object
     [("registryOperations", .list [.object
        [("hive", .int 0x80000002), ("keyPath", .text "SOFTWARE"), ("valueName", .text "Level"),
         ("value", .list [.int 1, .int 2]), ("valueType", .int 3)]]),
      ("scriptOperations", .list [.object
        [("script", .text "Stop-Service collector"), ("runAsAdmin", .int 1),
         ("timeoutSeconds", .text "60")]])]),
   ("undoOperations", .object [("fileOperations", .list [.object
     [("path", .text "hosts.old"), ("operation", .text "copy"), ("newPath", .text "hosts"),
      ("description", .null)]])]),
   ("detectionRules", .list [.object [("type", .text "registry"), ("confidence", .float 0.5)]])]

theorem sample_written_reads_back :
    ∃ t d t', Tweak.ofDatum sampleDefinition "sample.json" = .ok t ∧ t.toDatum = .ok d ∧
      Tweak.ofDatum d "" = .ok t' ∧ t'.toDatum = .ok d ∧ t'.tags.Perm t.tags ∧
      { t' with tags := t.tags } = t := by
  have hread : ((Tweak.ofDatum sampleDefinition "sample.json").toOption.any fun t =>
      decide (Datum.AreTexts t.tags ∧ Datum.AreTexts t.words)) = true := by decide +kernel
  cases ht : Tweak.ofDatum sampleDefinition "sample.json" with
  | error f => rw [ht] at hread; cases hread
  | ok t =>
    rw [ht] at hread
    obtain ⟨htags, hwords⟩ := of_decide_eq_true hread
    obtain ⟨d, t', hd, ht', hback, hsame⟩ := Tweak.written_reads_back (by decide) ht htags
    exact ⟨t, d, t', rfl, hd, ht', hback, hsame hwords⟩

end TweakEngine
