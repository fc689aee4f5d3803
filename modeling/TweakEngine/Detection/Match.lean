/-
# Comparing an observed value with an expected one

Numeric kinds compare as integers of their width when both sides stand for one; all
else compares as text ignoring case.  Two absent values match, one never does.
-/

import TweakEngine.Registry.Coerce

namespace TweakEngine
namespace Detection

/-- The widths of the words for numeric kinds. -/
def widthOf? (valueType : String) : Option Nat :=
  let word := Text.lowerWord (String.ofList (valueType.toList.filter (· != '_')))
  if word = "dword" ∨ word = "regdword" then some 32
  else if word = "qword" ∨ word = "regqword" then some 64
  else none

/-- The integer that a value stands for. -/
def integer? (d : Datum) : Option Int :=
  let d := match d with
    | .registry v => v.payload
    | d => d
  match d with
  | .text s => (RegistryValue.readNumeral (Text.trim s)).toOption
  | d => d.integral?

/-- A value as the text that is compared. -/
def comparedText : Datum → String
  | .registry v => v.display
  | .list items | .tuple items => Text.join ", " (items.map Datum.display)
  | .bytes bs => Encoding.hex bs
  | d => d.display

/-- Whether an observed value is the expected one. -/
def valuesMatch (actual expected : Datum) (valueType : String) : Bool :=
  match actual, expected with
  | .null, .null => true
  | .null, _ | _, .null => false
  | actual, expected =>
    let asText := Text.sameIgnoringCase (comparedText actual) (comparedText expected)
    match widthOf? valueType, integer? actual, integer? expected with
    | some width, some m, some n => m % (Nat.pow 2 width : Int) == n % (Nat.pow 2 width : Int)
    | _, _, _ => asText

end Detection
end TweakEngine
