/-
# Detection rules

A rule is a predicate about the system; a rule set says how its rules are combined and
what to answer when they cannot be evaluated.  The fields of a rule hold what the
catalog file holds and are checked only when the rule is evaluated.
-/

import TweakEngine.Label.Read

namespace TweakEngine

/-- The built-in kinds of rules. -/
inductive RuleKind
  | registryValue | registryKey | serviceState | fileExists | powerShellScript
  deriving DecidableEq, Repr

instance : Labelled RuleKind where
  vocabulary := "DetectionRuleType"
  members := [.registryValue, .registryKey, .serviceState, .fileExists, .powerShellScript]
  label
    | .registryValue => "RegistryValue" | .registryKey => "RegistryKey"
    | .serviceState => "ServiceState" | .fileExists => "FileExists"
    | .powerShellScript => "PowerShellScript"
  constant
    | .registryValue => "REGISTRY_VALUE" | .registryKey => "REGISTRY_KEY"
    | .serviceState => "SERVICE_STATE" | .fileExists => "FILE_EXISTS"
    | .powerShellScript => "POWERSHELL_SCRIPT"
  aliases :=
    [("registry", .registryValue), ("service", .serviceState), ("file", .fileExists),
     ("powershell", .powerShellScript), ("script", .powerShellScript)]

/-- How the outcomes of rules are combined. -/
inductive Logic
  | all | any | custom
  deriving DecidableEq, Repr

instance : Labelled Logic where
  vocabulary := "DetectionLogic"
  members := [.all, .any, .custom]
  label
    | .all => "ALL" | .any => "ANY" | .custom => "CUSTOM"
  constant
    | .all => "ALL" | .any => "ANY" | .custom => "CUSTOM"

/-- A predicate about the system. -/
structure Rule where
  type : String
  hive : Datum := .null
  keyPath : Datum := .null
  valueName : Datum := .null
  expected : Datum := .null
  valueType : String := "DWord"
  service : Datum := .null
  expectedState : Datum := .null
  filePath : Datum := .null
  script : Datum := .null
  success : Datum := .text "Tweak is applied"
  failure : Datum := .text "Tweak is not applied"
  confidence : Float := 0.8
  weight : Float := 1.0
  inverted : Bool := false
  description : Datum := .text ""

/-- The verdict when rules cannot be evaluated. -/
structure Fallback where
  isApplied : Bool := false
  message : Datum := .text "Could not detect tweak status"
  confidence : Float := 0.0

/-- Rules and how to combine them. -/
structure RuleSet where
  type : String := "Registry"
  rules : List Rule := []
  logic : Logic := .all
  customLogic : Datum := .null
  fallback : Fallback := {}

end TweakEngine
