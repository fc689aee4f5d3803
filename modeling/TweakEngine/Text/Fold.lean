/-
# Ignoring case

`fold` is full case folding: two texts are equal ignoring case when their folds are
equal.  Identifiers, object keys, categories and search terms are compared this way.

`lowerWord` serves the comparison with words of ASCII letters only.  It lowers the
ASCII capitals and the two other characters whose lower case begins with an ASCII
letter, `U+212A` (`k`) and `U+0130` (`i` and a combining dot); no other character can
make a text equal to such a word.
-/

import TweakEngine.Text.ClassTable
import TweakEngine.Text.FoldTable

namespace TweakEngine
namespace Text

/-- The shift of the first run that holds `n`. -/
def runShift (n : Nat) : List (Nat × Nat × Nat × Int) → Option Int
  | [] => none
  | (first, last, step, shift) :: rest =>
    if first ≤ n && n ≤ last && (n - first) % step == 0 then some shift else runShift n rest

/-- An ASCII capital in lower case; every other character as it is. -/
def lowerAscii (c : Char) : Char :=
  if 'A' ≤ c ∧ c ≤ 'Z' then Char.ofNat (c.toNat + 32) else c

/-- The case folding of one character. -/
def foldChar (c : Char) : List Char :=
  if c.toNat < 128 then [lowerAscii c]
  else match foldLong.lookup c.toNat with
    | some cs => cs.map Char.ofNat
    | none => match runShift c.toNat foldRuns with
      | some shift => [Char.ofNat ((c.toNat : Int) + shift).toNat]
      | none => [c]

/-- The case folding of a text. -/
def fold (s : String) : String :=
  String.ofList (s.toList.flatMap foldChar)

/-- Equality ignoring case. -/
def sameIgnoringCase (a b : String) : Bool := fold a == fold b

/-- The lower case of one character, as far as ASCII words are concerned. -/
def lowerWordChar (c : Char) : List Char :=
  if c.toNat = 0x212A then ['k']
  else if c.toNat = 0x130 then ['i', Char.ofNat 0x307]
  else [lowerAscii c]

/-- The lower case of a text, as far as ASCII words are concerned. -/
def lowerWord (s : String) : String :=
  String.ofList (s.toList.flatMap lowerWordChar)

/-- The ASCII capitals of a text in lower case. -/
def lowerAsciiText (s : String) : String :=
  String.ofList (s.toList.map lowerAscii)

/-- A letter, digit or other numeral. -/
def isAlphaNumeric (c : Char) : Bool :=
  if c.toNat < 128 then c.isAlphanum else inRanges alphaNumericBounds c.toNat

/-- A digit in any shape. -/
def isDigit (c : Char) : Bool :=
  if c.toNat < 128 then c.isDigit else inRanges digitBounds c.toNat

/-- The value of a decimal digit. -/
def decimalDigit? (c : Char) : Option Nat :=
  if c.toNat < 128 then (if c.isDigit then some (c.toNat - 48) else none)
  else match decimalZeros.find? fun z => z ≤ c.toNat && c.toNat < z + 10 with
    | some z => some (c.toNat - z)
    | none => none

/-- Whether a character shows as it is in a quoted text. -/
def isPrintable (c : Char) : Bool :=
  if c.toNat < 128 then 32 ≤ c.toNat && c.toNat < 127 else inRanges printableBounds c.toNat

end Text
end TweakEngine
