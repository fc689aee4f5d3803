/-
# Reading definitions

`Tweak.ofDatum` builds a tweak out of the JSON form of its definition, and its parts
out of theirs.  Words are matched as labels; older files write positions and numbers
of the platform instead.  Unknown logic is replaced by `all`, and `Tweak.notices`
lists what is said about it.
-/

import TweakEngine.Catalog.Fields
import TweakEngine.Tweak

namespace TweakEngine

/-- The platform's numbers for hives. -/
def Hive.numbers : List (Int × Hive) :=
  [(0x80000000, .classesRoot), (-0x80000000, .classesRoot), (0x80000001, .currentUser),
   (0x80000002, .localMachine), (0x80000003, .users), (0x80000005, .currentConfig)]

/-- The platform's numbers for value kinds. -/
def ValueKind.numbers : List (Int × ValueKind) :=
  [(1, .string), (2, .expandString), (3, .binary), (4, .dword), (7, .multiString), (11, .qword)]

/-- A start type by its number or its word; absent stays absent. -/
def StartupType.ofTag : Datum → Except Failure (Option StartupType)
  | .null => .ok none
  | .int n => .ok (some (StartupType.ofNumber n))
  | d => some <$> Labelled.ofDatum d

/-- A registry operation out of its JSON form. -/
def RegistryOperation.ofDatum (d : Datum) : Except Failure RegistryOperation := do
  let f ← Fields.ofDatum "Registry operation" d
  let hive ← Labelled.ofTag (some Hive.numbers) (← f.require "hive")
  let keyPath ← f.require "keyPath"
  let kind ← Labelled.ofTag (some ValueKind.numbers) (f.getOr "valueType" (.text "DWord"))
  let action ← Labelled.ofTag none (f.getOr "operation" (.text "SetValue"))
  return {
    hive, keyPath, kind, action
    valueName := f.get "valueName"
    value := f.get "value"
    description := f.getOr "description" (.text "") }

/-- A service operation out of its JSON form. -/
def ServiceOperation.ofDatum (d : Datum) : Except Failure ServiceOperation := do
  let f ← Fields.ofDatum "Service operation" d
  let service ← f.require "serviceName"
  let action ← Labelled.ofTag none (f.getOr "operation" (.text "Disable"))
  let startup ← StartupType.ofTag (f.get "startupType")
  return { service, action, startup, description := f.getOr "description" (.text "") }

/-- A file operation out of its JSON form. -/
def FileOperation.ofDatum (d : Datum) : Except Failure FileOperation := do
  let f ← Fields.ofDatum "File operation" d
  let path ← f.require "path"
  let action ← Labelled.ofTag none (← f.require "operation")
  return {
    path, action
    content := f.get "content"
    target := (f.find? ["targetPath", "newPath"]).getD .null
    createDirectories := (f.getOr "createDirectories" (.bool true)).truthy
    backup := f.get "backupPath"
    description := f.getOr "description" (.text "") }

/-- A script operation out of its JSON form. -/
def ScriptOperation.ofDatum (d : Datum) : Except Failure ScriptOperation := do
  let f ← Fields.ofDatum "Script operation" d
  let script ← f.require "script"
  let timeout ← (f.getOr "timeoutSeconds" (.int 30)).toInt
  return {
    script, timeout
    elevated := ((f.find? ["runElevated", "runAsAdmin"]).getD (.bool false)).truthy
    revert := f.get "revertScript"
    description := f.getOr "description" (.text "") }

/-- The items of a field read one by one; an absent field has none. -/
def Fields.each {α : Type} (f : Fields) (names : List String) (read : Datum → Except Failure α) :
    Except Failure (List α) := do
  (← ((f.find? names).getD (.list [])).iterate).mapM read

/-- A set of operations out of its JSON form. -/
def OperationSet.ofDatum (d : Datum) : Except Failure OperationSet := do
  let f ← Fields.ofDatum "Operation set" d
  let registry ← f.each ["registryOperations"] RegistryOperation.ofDatum
  let services ← f.each ["serviceOperations"] ServiceOperation.ofDatum
  let scripts ← f.each ["powerShellOperations", "scriptOperations"] ScriptOperation.ofDatum
  let files ← f.each ["fileOperations"] FileOperation.ofDatum
  return { registry, services, scripts, files }

/-- A detection rule out of its JSON form.  Its target fields are not looked at. -/
def Rule.ofDatum (d : Datum) : Except Failure Rule := do
  let f ← Fields.ofDatum "Detection rule" d
  let confidence ← (f.getOr "confidence" (.float 0.8)).toFloat
  let weight ← (f.getOr "weight" (.float 1.0)).toFloat
  return {
    confidence, weight
    type := (f.getOr "type" (.text "RegistryValue")).display
    hive := f.get "hive"
    keyPath := f.get "keyPath"
    valueName := f.get "valueName"
    expected := f.get "expectedValue"
    valueType := (f.getOr "valueType" (.text "DWord")).display
    service := f.get "serviceName"
    expectedState := (f.find? ["expectedServiceState", "expectedState"]).getD .null
    filePath := f.get "filePath"
    script := f.get "script"
    success := f.getOr "successMessage" (.text "Tweak is applied")
    failure := f.getOr "failureMessage" (.text "Tweak is not applied")
    inverted := (f.getOr "inverted" (.bool false)).truthy
    description := f.getOr "description" (.text "") }

/-- The fallback of a rule set out of its JSON form. -/
def Fallback.ofDatum (d : Datum) : Except Failure Fallback := do
  let f ← Fields.ofDatum "Fallback behavior" d
  let confidence ← (f.getOr "confidence" (.float 0.0)).toFloat
  return {
    confidence
    isApplied := (f.getOr "isApplied" (.bool false)).truthy
    message := f.getOr "message" (.text "Could not detect tweak status") }

/-- The fallback that the fields of a rule set give. -/
def Fields.fallback (f : Fields) : Except Failure Fallback :=
  match f.find? ["fallbackBehavior", "fallback"] with
  | some d => Fallback.ofDatum d
  | none => .ok {}

/-- The word for the logic in the fields of a rule set. -/
def Fields.logicWord (f : Fields) : Datum := f.getOr "logic" (.text "ALL")

/-- A rule set out of an object or a bare list of rules. -/
def RuleSet.ofDatum (d : Datum) : Except Failure RuleSet :=
  match d with
  | .list items => do return { rules := ← items.mapM Rule.ofDatum }
  | d => do
    let f ← Fields.ofDatum "Detection rules" d
    let fallback ← f.fallback
    let rules ← f.each ["rules"] Rule.ofDatum
    return {
      fallback, rules
      type := (f.getOr "type" (.text "Registry")).display
      logic := (Labelled.parse? f.logicWord.display).getD .all
      customLogic := f.get "customLogic" }

/-- What is said about a rule set whose logic is unknown. -/
def RuleSet.notice? (d : Datum) : Option String :=
  match d with
  | .list _ => none
  | d =>
    match Fields.ofDatum "Detection rules" d with
    | .error _ => none
    | .ok f =>
      match f.fallback, (Labelled.parse? f.logicWord.display : Option Logic) with
      | .ok _, none => some ("Unknown detection logic '" ++ f.logicWord.display ++ "', using ALL")
      | _, _ => none

/-- The tags of a definition; a single text is one tag. -/
def Fields.tags (f : Fields) : Except Failure (List Datum) :=
  match f.getOr "tags" (.list []) with
  | .text s => .ok [.text s]
  | d => d.elements

/-- A tweak out of the fields of its definition, without its rules. -/
def Tweak.ofFields (f : Fields) (source : String) : Except Failure Tweak := do
  let id := (← f.require "id").display
  let severity ← Labelled.ofTag none (f.getOr "severity" (.text "Low"))
  let tags ← f.tags
  let operations ← match f.find? ["applyOperations", "operations"] with
    | some d => OperationSet.ofDatum d
    | none => .ok {}
  let undo ← match f.find? ["undoOperations"] with
    | some d => some <$> OperationSet.ofDatum d
    | none => .ok none
  return {
    id, severity, tags, operations, undo
    name := f.getOr "name" (.text id)
    description := f.getOr "description" (.text "")
    category := f.getOr "category" (.text "")
    subCategory := f.getOr "subCategory" (.text "")
    requiresRestart := (f.getOr "requiresRestart" (.bool false)).truthy
    isReversible := (f.getOr "isReversible" (.bool true)).truthy
    source := f.getOr "source" (.text source)
    version := (f.getOr "version" (.text "1.0.0")).display
    documentationUrl := f.get "documentationUrl" }

/-- A tweak out of its definition; `source` is where the definition was found. -/
def Tweak.ofDatum (d : Datum) (source : String) : Except Failure Tweak := do
  let f ← Fields.ofDatum "Tweak" d
  let t ← Tweak.ofFields f source
  match f.find? ["detectionRules"] with
  | some d => return { t with rules := some (← RuleSet.ofDatum d) }
  | none => return t

/-- What is said while a definition is read. -/
def Tweak.notices (d : Datum) : List String :=
  match Fields.ofDatum "Tweak" d with
  | .error _ => []
  | .ok f =>
    match Tweak.ofFields f "", f.find? ["detectionRules"] with
    | .ok _, some rules => (RuleSet.notice? rules).toList
    | _, _ => []

end TweakEngine
