/-
# Failures

Everything that can go wrong, by its cause.  `Malformed` lists what can be wrong with
a definition, `SystemError` what the platform answers, and `Failure` is their sum with
the refusals of the engine itself.  The wording stands in the three `message`
functions alone.  `Failure.isOperational` separates the failures that are recorded
against one operation from those that end a run.
-/

import TweakEngine.Datum
import TweakEngine.Json.Fault

namespace TweakEngine

/-- What can be wrong with a definition, an operation or a rule. -/
inductive Malformed
  | unknownLabel (vocabulary shown : String)
  | invalidLabel (vocabulary shown : String)
  | notObject (what form : String)
  | missingField (what field : String)
  | unusable (shown kind : String)
  | base64 (e : Base64.Error)
  | byteList (reason : String)
  | tooWide (value : Int) (kind : String)
  | emptyId
  | duplicateId (id : String)
  | noValue
  | noStartupType
  | emptyScript
  | noTarget (operation : String)
  | noTweaks (file : String)
  | tweaksNotList (file : String)
  | reported (text : String)
  deriving DecidableEq, Repr

/-- The text of a cause. -/
def Malformed.message : Malformed → String
  | unknownLabel v shown => "Unknown " ++ v ++ " value: " ++ shown
  | invalidLabel v shown => "Invalid " ++ v ++ " value: " ++ shown
  | notObject what form => what ++ " must be a JSON object, got " ++ form
  | missingField what field => what ++ " is missing required field '" ++ field ++ "'"
  | unusable shown kind => "Cannot use " ++ shown ++ " as a " ++ kind ++ " value"
  | base64 e => "Binary value is not valid base64: " ++ e.message
  | byteList reason => "Binary value is not a byte list: " ++ reason
  | tooWide value kind => Decimal.intText value ++ " does not fit in a " ++ kind
  | emptyId => "Tweak id must not be empty"
  | duplicateId id => "Duplicate tweak id: " ++ id
  | noValue => "SetValue operation has no value"
  | noStartupType => "SetStartupType operation has no startup type"
  | emptyScript => "Script operation has an empty script"
  | noTarget operation => operation ++ " operation has no target path"
  | noTweaks file => "No tweaks in " ++ file
  | tweaksNotList file => "Tweaks in " ++ file ++ " must be a list"
  | reported text => text

/-- What kind of error the platform answers. -/
inductive SystemErrorKind
  | notFound | permission | exists | notDirectory | isDirectory | nameTooLong | notEmpty
  | sameFile | refusedMove | tooLarge | other
  deriving DecidableEq, Repr

/-- The platform's number and words for an error. -/
def SystemErrorKind.wording : SystemErrorKind → Nat × String
  | .notFound => (2, "No such file or directory")
  | .permission => (13, "Permission denied")
  | .exists => (17, "File exists")
  | .notDirectory => (20, "Not a directory")
  | .isDirectory => (21, "Is a directory")
  | .nameTooLong => (36, "File name too long")
  | .notEmpty => (39, "Directory not empty")
  | .tooLarge => (75, "Value too large for defined data type")
  | .sameFile | .refusedMove | .other => (22, "Invalid argument")

/-- An error of the platform: about a path, or in words of its own. -/
inductive SystemError
  | onPath (kind : SystemErrorKind) (path : String)
  | stated (kind : SystemErrorKind) (text : String)
  deriving DecidableEq, Repr

namespace SystemError

/-- The kind of an error. -/
def kind : SystemError → SystemErrorKind
  | onPath k _ | stated k _ => k

/-- The text of an error. -/
def message : SystemError → String
  | onPath k path =>
    "[Errno " ++ toString k.wording.1 ++ "] " ++ k.wording.2 ++ ": " ++ Text.quoted path
  | stated _ text => text

end SystemError

/-- Everything that can go wrong. -/
inductive Failure
  | malformed (cause : Malformed)
  | notElevated
  | notReversible (name : String)
  | cancelled (text : String)
  | probeUnavailable (text : String)
  | mutatorUnavailable (text : String)
  | scriptTimeout (text : String)
  /-- Refused by the engine or by the system it works on. -/
  | refused (text : String)
  | system (e : SystemError)
  | process (text : String)
  | json (fault : Json.Fault)
  | utf8 (e : Encoding.Utf8Error)
  | badValue (text : String)
  | overflow (text : String)
  | mistyped (text : String)
  | noAttribute (text : String)
  | unexpected (text : String)
  /-- Nothing more can be read from the keyboard. -/
  | endOfInput
  | interrupted
  deriving DecidableEq, Repr

namespace Failure

/-- The text of a failure. -/
def message : Failure → String
  | malformed cause => cause.message
  | notElevated => "Administrator privileges are required for this tweak"
  | notReversible name => "Tweak '" ++ name ++ "' is not reversible"
  | system e => e.message
  | json fault => fault.message
  | utf8 e => e.message
  | endOfInput => "EOF when reading a line"
  | interrupted => ""
  | cancelled text | probeUnavailable text | mutatorUnavailable text | scriptTimeout text
  | refused text | process text | badValue text | overflow text | mistyped text
  | noAttribute text | unexpected text => text

/-- The refusals that the engine and its surroundings declare. -/
def isDeclared : Failure → Bool
  | malformed _ | notElevated | notReversible _ | cancelled _ | probeUnavailable _
  | mutatorUnavailable _ | scriptTimeout _ | refused _ => true
  | _ => false

/-- The errors of the platform; missing rights and timeouts are among them. -/
def isSystem : Failure → Bool
  | system _ | notElevated | scriptTimeout _ => true
  | _ => false

/-- The errors about a value that has the right form and a wrong content. -/
def isValue : Failure → Bool
  | badValue _ | json _ | utf8 _ => true
  | _ => false

/-- Failures that are recorded against one operation; the next operation still runs. -/
def isOperational (f : Failure) : Bool :=
  f.isDeclared || f.isSystem || f.isValue || (f matches process _)

/-- An operation is asked of a value whose form does not have it. -/
def lacks (d : Datum) (operation : String) : Failure :=
  noAttribute ("'" ++ d.form ++ "' object has no attribute '" ++ operation ++ "'")

/-- The refusal to run any further step. -/
def stopped : Failure := cancelled "Operation cancelled"

end Failure
end TweakEngine
