/-
# Hives and value kinds

The five root keys of the registry and the six kinds of value.  Every hive but the
current user's is shared by the whole machine.
-/

import TweakEngine.Label

namespace TweakEngine

/-- A root key of the registry. -/
inductive Hive
  | currentUser | localMachine | users | classesRoot | currentConfig
  deriving DecidableEq, Repr

namespace Hive

instance : Labelled Hive where
  vocabulary := "RegistryHive"
  members := [currentUser, localMachine, users, classesRoot, currentConfig]
  label
    | currentUser => "CurrentUser" | localMachine => "LocalMachine" | users => "Users"
    | classesRoot => "ClassesRoot" | currentConfig => "CurrentConfig"
  constant
    | currentUser => "CURRENT_USER" | localMachine => "LOCAL_MACHINE" | users => "USERS"
    | classesRoot => "CLASSES_ROOT" | currentConfig => "CURRENT_CONFIG"
  aliases :=
    [("hkcu", currentUser), ("hkeycurrentuser", currentUser),
     ("hklm", localMachine), ("hkeylocalmachine", localMachine),
     ("hku", users), ("hkeyusers", users),
     ("hkcr", classesRoot), ("hkeyclassesroot", classesRoot),
     ("hkcc", currentConfig), ("hkeycurrentconfig", currentConfig)]

/-- The usual abbreviation of a hive. -/
def short : Hive → String
  | currentUser => "HKCU"
  | localMachine => "HKLM"
  | users => "HKU"
  | classesRoot => "HKCR"
  | currentConfig => "HKCC"

/-- Whether writing under the hive needs administrator rights. -/
def isMachineWide (h : Hive) : Bool := h != currentUser

end Hive

/-- The kind of a registry value. -/
inductive ValueKind
  | string | expandString | dword | qword | binary | multiString
  deriving DecidableEq, Repr

namespace ValueKind

instance : Labelled ValueKind where
  vocabulary := "RegistryValueKind"
  members := [string, expandString, dword, qword, binary, multiString]
  label
    | string => "String" | expandString => "ExpandString" | dword => "DWord" | qword => "QWord"
    | binary => "Binary" | multiString => "MultiString"
  constant
    | string => "STRING" | expandString => "EXPAND_STRING" | dword => "DWORD" | qword => "QWORD"
    | binary => "BINARY" | multiString => "MULTI_STRING"
  aliases :=
    [("regsz", string), ("regexpandsz", expandString), ("regdword", dword),
     ("regqword", qword), ("regbinary", binary), ("regmultisz", multiString)]

/-- The word that is written for a kind. -/
def label (k : ValueKind) : String := Labelled.label k

/-- Whether values of the kind are numbers. -/
def isInteger (k : ValueKind) : Bool := k == dword || k == qword

end ValueKind
end TweakEngine
