/-
# Reading numbers

An integer literal is a sign and digits with single underscores between them, with
blanks around it; digits of every script count.  A base-sixteen literal may start
with `0x`.  A base-ten literal of more than 4300 digits is refused, as is writing
an integer that long.  A double literal also has a point, an exponent, or is one of
the words for infinity and not-a-number.
-/

import TweakEngine.Decimal.Binary
import TweakEngine.Text.Blank
import TweakEngine.Text.Fold

namespace TweakEngine
namespace Decimal

open Text (isBlank decimalDigit? lowerAscii)

/-- The most digits of a base-ten integer that are read or written. -/
def maxDigits : Nat := 4300

/-- Why a text is no integer. -/
inductive NumeralError
  | invalid
  /-- Refused for its number of digits. -/
  | tooLong (digits : Nat)
  deriving DecidableEq, Repr

/-- The blanks around a numeral: those of ASCII except the separators, and all others. -/
def isNumeralBlank (c : Char) : Bool :=
  let n := c.toNat
  (9 ≤ n && n ≤ 13) || n == 32 || (128 ≤ n && isBlank c)

/-- The characters without the blanks around a numeral. -/
def trimNumeral (cs : List Char) : List Char :=
  ((cs.dropWhile isNumeralBlank).reverse.dropWhile isNumeralBlank).reverse

/-- The value of a digit in a base up to sixteen. -/
def digitIn? (base : Nat) (c : Char) : Option Nat :=
  let value := match decimalDigit? c with
    | some d => some d
    | none =>
      let l := lowerAscii c
      if 'a' ≤ l ∧ l ≤ 'f' then some (l.toNat - 87) else none
  value.filter (· < base)

/-- Digits with single underscores between them; `after` says that a digit came last. -/
def digitsValue (base : Nat) : Bool → Nat → List Char → Option Nat
  | after, acc, [] => if after then some acc else none
  | after, acc, c :: cs =>
    if c = '_' then (if after then digitsValue base false acc cs else none)
    else match digitIn? base c with
      | some d => digitsValue base true (acc * base + d) cs
      | none => none

/-- A sign in front of the rest. -/
def takeSign : List Char → Bool × List Char
  | '-' :: cs => (true, cs)
  | '+' :: cs => (false, cs)
  | cs => (false, cs)

/-- A base-ten integer. -/
def readInt (s : String) : Except NumeralError Int :=
  let (negative, cs) := takeSign (trimNumeral s.toList)
  match digitsValue 10 false 0 cs with
  | none => .error .invalid
  | some n =>
    let count := (cs.filter (· ≠ '_')).length
    if count > maxDigits then .error (.tooLong count)
    else .ok (if negative then -(n : Int) else n)

/-- A base-sixteen integer, which may start with `0x`. -/
def readHex (s : String) : Except NumeralError Int :=
  let (negative, cs) := takeSign (trimNumeral s.toList)
  let body := match cs with
    | z :: x :: rest =>
      if decimalDigit? z = some 0 ∧ (x = 'x' ∨ x = 'X') then
        match rest with
        | '_' :: rest => rest
        | rest => rest
      else cs
    | cs => cs
  match digitsValue 16 false 0 body with
  | none => .error .invalid
  | some n => .ok (if negative then -(n : Int) else n)

/-- A run of base-ten digits with single underscores: the digits and what follows. -/
def spanDigits : Bool → List Char → Option (List Nat × List Char)
  | _, [] => some ([], [])
  | after, c :: cs =>
    match decimalDigit? c with
    | some d => (spanDigits true cs).map fun (ds, rest) => (d :: ds, rest)
    | none =>
      if c = '_' then
        match after, cs with
        | true, d :: _ => if (decimalDigit? d).isSome then spanDigits false cs else none
        | _, _ => none
      else some ([], c :: cs)

/-- The double nearest to `digits · 10^exponent`. -/
def scale (digits : Nat) (exponent : Int) : Float :=
  let size : Int := (Nat.toDigits 10 digits).length
  if digits = 0 then 0
  else if size + exponent > 400 then Float.ofScientific 1 false 400
  else if size + exponent < -400 then 0
  else if exponent < 0 then Float.ofScientific digits true exponent.natAbs
  else Float.ofScientific digits false exponent.natAbs

/-- The value of a row of decimal digits. -/
def ofDigits (ds : List Nat) : Nat := ds.foldl (fun acc d => acc * 10 + d) 0

/-- The exponent at the end of a double literal. -/
def readExponent : List Char → Option Int
  | [] => some 0
  | e :: cs =>
    if e = 'e' ∨ e = 'E' then
      let (negative, cs) := takeSign cs
      match spanDigits false cs with
      | some (d :: ds, []) =>
        let n := ofDigits (d :: ds)
        some (if negative then -(n : Int) else n)
      | _ => none
    else none

/-- A double. -/
def readFloat (s : String) : Option Float :=
  let (negative, cs) := takeSign (trimNumeral s.toList)
  let signed (x : Float) : Float := if negative then -x else x
  let word := String.ofList (cs.map lowerAscii)
  if word = "inf" ∨ word = "infinity" then some (signed (1.0 / 0.0))
  else if word = "nan" then some (signed (0.0 / 0.0))
  else do
    let (whole, rest) ← spanDigits false cs
    let (places, rest) ← match rest with
      | '.' :: rest => spanDigits false rest
      | rest => some ([], rest)
    if whole.isEmpty && places.isEmpty then none
    else
      let e ← readExponent rest
      some (signed (scale (ofDigits (whole ++ places)) (e - places.length)))

end Decimal
end TweakEngine
