/-
# Writing definitions

The JSON form of a tweak and of its parts.  Fields that are absent, and the descriptive
ones that are empty, are left out; tags are sorted, which needs tags of one form.
-/

import TweakEngine.Tweak
import TweakEngine.Catalog.Fields

namespace TweakEngine

/-- An object of the fields that are not null. -/
def Datum.present (fields : List (String × Datum)) : Datum :=
  .object (fields.filter fun e => !e.2.isNull)

/-- A value, or null when it is empty. -/
def Datum.unlessEmpty (d : Datum) : Datum := if d.truthy then d else .null

/-- A payload in the form that files hold. -/
def Datum.payloadJson : Datum → Datum
  | .registry v => v.toJson
  | .bytes bs => .text (Base64.encode bs)
  | .tuple items => .list items
  | d => d

/-- The JSON form of a registry operation. -/
def RegistryOperation.toDatum (op : RegistryOperation) : Datum := .present
  [("hive", .text (Labelled.label op.hive)),
   ("keyPath", op.keyPath),
   ("valueName", op.valueName),
   ("value", op.value.payloadJson),
   ("valueType", .text op.kind.label),
   ("operation", .text (Labelled.label op.action)),
   ("description", op.description.unlessEmpty)]

/-- The JSON form of a service operation. -/
def ServiceOperation.toDatum (op : ServiceOperation) : Datum := .present
  [("serviceName", op.service),
   ("operation", .text (Labelled.label op.action)),
   ("startupType", .ofLabel? op.startup),
   ("description", op.description.unlessEmpty)]

/-- The JSON form of a file operation. -/
def FileOperation.toDatum (op : FileOperation) : Datum := .present
  [("path", op.path),
   ("operation", .text (Labelled.label op.action)),
   ("content", op.content),
   ("targetPath", op.target),
   ("createDirectories", .bool op.createDirectories),
   ("backupPath", op.backup),
   ("description", op.description.unlessEmpty)]

/-- The JSON form of a script operation. -/
def ScriptOperation.toDatum (op : ScriptOperation) : Datum := .present
  [("script", op.script),
   ("runAsAdmin", .bool op.elevated),
   ("timeoutSeconds", .int op.timeout),
   ("revertScript", op.revert),
   ("description", op.description.unlessEmpty)]

/-- The JSON form of a set of operations. -/
def OperationSet.toDatum (ops : OperationSet) : Datum := .object
  [("registryOperations", .list (ops.registry.map RegistryOperation.toDatum)),
   ("serviceOperations", .list (ops.services.map ServiceOperation.toDatum)),
   ("powerShellOperations", .list (ops.scripts.map ScriptOperation.toDatum)),
   ("fileOperations", .list (ops.files.map FileOperation.toDatum))]

/-- The JSON form of a detection rule. -/
def Rule.toDatum (r : Rule) : Datum := .present
  [("type", .text r.type),
   ("hive", r.hive),
   ("keyPath", r.keyPath),
   ("valueName", r.valueName),
   ("expectedValue", r.expected),
   ("valueType", .text r.valueType),
   ("serviceName", r.service),
   ("expectedServiceState", r.expectedState),
   ("filePath", r.filePath),
   ("script", r.script),
   ("successMessage", r.success),
   ("failureMessage", r.failure),
   ("confidence", .float r.confidence),
   ("weight", .float r.weight),
   ("inverted", .bool r.inverted),
   ("description", r.description.unlessEmpty)]

/-- The JSON form of a rule set. -/
def RuleSet.toDatum (rs : RuleSet) : Datum := .present
  [("type", .text rs.type),
   ("rules", .list (rs.rules.map Rule.toDatum)),
   ("logic", .text (Labelled.label rs.logic)),
   ("customLogic", rs.customLogic),
   ("fallbackBehavior", .object
     [("isApplied", .bool rs.fallback.isApplied),
      ("message", rs.fallback.message),
      ("confidence", .float rs.fallback.confidence)])]

/-- The JSON form of a tweak. -/
def Tweak.toDatum (t : Tweak) : Except Failure Datum := do
  let tags ← Datum.sorted t.tags
  return .present
    [("id", .text t.id),
     ("name", t.name),
     ("description", t.description),
     ("category", t.category),
     ("subCategory", t.subCategory.unlessEmpty),
     ("severity", .text t.severity.label),
     ("requiresRestart", .bool t.requiresRestart),
     ("isReversible", .bool t.isReversible),
     ("tags", .list tags),
     ("source", t.source.unlessEmpty),
     ("version", .text t.version),
     ("documentationUrl", t.documentationUrl),
     ("applyOperations", t.operations.toDatum),
     ("undoOperations", (t.undo.map OperationSet.toDatum).getD .null),
     ("detectionRules", (t.rules.map RuleSet.toDatum).getD .null)]

end TweakEngine
