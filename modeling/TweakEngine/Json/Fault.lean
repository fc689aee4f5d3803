/-
# Faults in JSON text

What reading may stumble over, and where.  A place is a count of characters; lines and
columns are counted from one, and only a newline ends a line.
-/

namespace TweakEngine
namespace Json

/-- What is wrong with a JSON text. -/
inductive Cause
  | value
  | propertyName
  | colon
  | comma
  | openText
  | escape
  | unicodeEscape
  | controlCharacter
  | extraData
  | byteOrderMark
  deriving DecidableEq, Repr

/-- The text of a cause. -/
def Cause.message : Cause → String
  | .value => "Expecting value"
  | .propertyName => "Expecting property name enclosed in double quotes"
  | .colon => "Expecting ':' delimiter"
  | .comma => "Expecting ',' delimiter"
  | .openText => "Unterminated string starting at"
  | .escape => "Invalid \\escape"
  | .unicodeEscape => "Invalid \\uXXXX escape"
  | .controlCharacter => "Invalid control character at"
  | .extraData => "Extra data"
  | .byteOrderMark => "Unexpected UTF-8 BOM (decode using utf-8-sig)"

/-- A fault with its place. -/
structure Fault where
  cause : Cause
  position : Nat
  line : Nat
  column : Nat
  deriving DecidableEq, Repr

/-- A fault at a position of a text. -/
def Fault.at (cause : Cause) (position : Nat) (text : List Char) : Fault :=
  let before := text.take position
  let lastLine := before.reverse.takeWhile (· != '\n')
  ⟨cause, position, before.count '\n' + 1, lastLine.length + 1⟩

/-- The text of a fault. -/
def Fault.message (f : Fault) : String :=
  f.cause.message ++ ": line " ++ toString f.line ++ " column " ++ toString f.column ++
    " (char " ++ toString f.position ++ ")"

end Json
end TweakEngine
