/-
# Base 64

Three bytes are four characters of an alphabet of 64; the last group may hold one or
two bytes and is filled with `=`.  Reading is strict: nothing outside the alphabet is
skipped and nothing may follow the padding.  Each way to fail has its own cause.
-/

namespace TweakEngine
namespace Base64

/-- Why a text is not base 64. -/
inductive Error
  | notAscii
  | leadingPadding
  | discontinuousPadding
  | excessData
  | strangeCharacter
  /-- One character is left over after this many. -/
  | dangling (characters : Nat)
  | incorrectPadding
  deriving DecidableEq, Repr

/-- The text of an error. -/
def Error.message : Error → String
  | .notAscii => "string argument should contain only ASCII characters"
  | .leadingPadding => "Leading padding not allowed"
  | .discontinuousPadding => "Discontinuous padding not allowed"
  | .excessData => "Excess data after padding"
  | .strangeCharacter => "Only base64 data is allowed"
  | .dangling n =>
    "Invalid base64-encoded string: number of data characters (" ++ toString n ++
      ") cannot be 1 more than a multiple of 4"
  | .incorrectPadding => "Incorrect padding"

/-- The character that stands for six bits. -/
def letter (n : Nat) : Char :=
  if n < 26 then Char.ofNat (65 + n)
  else if n < 52 then Char.ofNat (71 + n)
  else if n < 62 then Char.ofNat (n - 4)
  else if n = 62 then '+' else '/'

/-- The six bits that a character stands for. -/
def value? (c : Char) : Option Nat :=
  if 'A' ≤ c ∧ c ≤ 'Z' then some (c.toNat - 65)
  else if 'a' ≤ c ∧ c ≤ 'z' then some (c.toNat - 71)
  else if '0' ≤ c ∧ c ≤ '9' then some (c.toNat + 4)
  else if c = '+' then some 62
  else if c = '/' then some 63
  else none

/-- The characters for a list of bytes. -/
def encodeChars : List UInt8 → List Char
  | [] => []
  | [a] =>
    let n := a.toNat * 16
    [letter (n / 64), letter (n % 64), '=', '=']
  | [a, b] =>
    let n := (a.toNat * 256 + b.toNat) * 4
    [letter (n / 4096), letter (n / 64 % 64), letter (n % 64), '=']
  | a :: b :: c :: rest =>
    let n := (a.toNat * 256 + b.toNat) * 256 + c.toNat
    letter (n / 262144) :: letter (n / 4096 % 64) :: letter (n / 64 % 64) :: letter (n % 64) ::
      encodeChars rest

/-- Bytes as base 64. -/
def encode (bs : List UInt8) : String := String.ofList (encodeChars bs)

/-- Where reading stands inside a group of four characters. -/
structure Group where
  /-- How many characters of the group were read. -/
  position : Nat
  /-- The bits that are not yet part of a byte. -/
  left : Nat
  /-- How many `=` were counted since the last character. -/
  pads : Nat
  /-- Whether an `=` was read at all. -/
  padded : Bool
  /-- How many characters of the alphabet were read. -/
  data : Nat

/-- Reads the characters from inside a group. -/
def decodeFrom : Group → List Char → Except Error (List UInt8)
  | g, [] =>
    if g.position = 0 then .ok []
    else if g.position = 1 then .error (.dangling g.data)
    else .error .incorrectPadding
  | g, c :: cs =>
    if c = '=' then
      if 2 ≤ g.position ∧ 4 ≤ g.position + (g.pads + 1) then
        if cs.isEmpty then .ok [] else .error .excessData
      else
        let pads := if 2 ≤ g.position then g.pads + 1 else g.pads
        decodeFrom { g with pads := pads, padded := true } cs
    else match value? c with
      | none => .error .strangeCharacter
      | some v =>
        if g.padded then .error .discontinuousPadding
        else
          let bits := g.left * 64 + v
          let next := { g with pads := 0, data := g.data + 1 }
          match g.position with
          | 0 => decodeFrom { next with position := 1, left := v } cs
          | 1 => (UInt8.ofNat (bits / 16) :: ·) <$>
              decodeFrom { next with position := 2, left := bits % 16 } cs
          | 2 => (UInt8.ofNat (bits / 4) :: ·) <$>
              decodeFrom { next with position := 3, left := bits % 4 } cs
          | _ => (UInt8.ofNat bits :: ·) <$> decodeFrom { next with position := 0, left := 0 } cs

/-- The bytes of a base 64 text. -/
def decode (s : String) : Except Error (List UInt8) :=
  let cs := s.toList
  if cs.any fun c => 128 ≤ c.toNat then .error .notAscii
  else if cs.head? = some '=' then .error .leadingPadding
  else decodeFrom ⟨0, 0, 0, false, 0⟩ cs

end Base64
end TweakEngine
