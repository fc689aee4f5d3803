/-
# UTF-8, and two smaller encodings

A text is the bytes of its code points.  Reading bytes names the first ill-formed
sequence: where it starts, how many bytes belong to it, and what is wrong; or it puts
`U+FFFD` in the place of each (`decodeLossy`).  Beside it stand UTF-16 with the low
byte first and hexadecimal digits.
-/

import TweakEngine.Text.Quoted

namespace TweakEngine
namespace Encoding

/-- What is wrong with a byte sequence. -/
inductive Utf8Fault
  | startByte
  | continuationByte
  | endOfData
  deriving DecidableEq, Repr

/-- The first ill-formed sequence of some bytes. -/
structure Utf8Error where
  position : Nat
  length : Nat
  byte : UInt8
  fault : Utf8Fault
  deriving DecidableEq, Repr

/-- The text of an error. -/
def Utf8Error.message (e : Utf8Error) : String :=
  let what := match e.fault with
    | .startByte => "invalid start byte"
    | .continuationByte => "invalid continuation byte"
    | .endOfData => "unexpected end of data"
  if e.length = 1 then
    "'utf-8' codec can't decode byte 0x" ++ String.ofList (Text.hexDigits 2 e.byte.toNat) ++
      " in position " ++ toString e.position ++ ": " ++ what
  else
    "'utf-8' codec can't decode bytes in position " ++ toString e.position ++ "-" ++
      toString (e.position + e.length - 1) ++ ": " ++ what

/-- The bytes of one character. -/
def utf8Char (c : Char) : List UInt8 :=
  let n := c.toNat
  if n < 0x80 then [UInt8.ofNat n]
  else if n < 0x800 then [UInt8.ofNat (0xC0 + n / 64), UInt8.ofNat (0x80 + n % 64)]
  else if n < 0x10000 then
    [UInt8.ofNat (0xE0 + n / 4096), UInt8.ofNat (0x80 + n / 64 % 64), UInt8.ofNat (0x80 + n % 64)]
  else
    [UInt8.ofNat (0xF0 + n / 262144), UInt8.ofNat (0x80 + n / 4096 % 64),
      UInt8.ofNat (0x80 + n / 64 % 64), UInt8.ofNat (0x80 + n % 64)]

/-- The bytes of a text. -/
def utf8 (s : String) : List UInt8 := s.toList.flatMap utf8Char

/-- The number of bytes that a start byte announces, and its own bits. -/
def startByte? (b : UInt8) : Option (Nat × Nat) :=
  let n := b.toNat
  if n < 0x80 then some (1, n)
  else if n < 0xC2 then none
  else if n < 0xE0 then some (2, n - 0xC0)
  else if n < 0xF0 then some (3, n - 0xE0)
  else if n < 0xF5 then some (4, n - 0xF0)
  else none

/-- Whether `b` may be the second byte after the start byte `a`. -/
def secondByteOk (a b : UInt8) : Bool :=
  let n := b.toNat
  if a.toNat = 0xE0 then 0xA0 ≤ n && n < 0xC0
  else if a.toNat = 0xED then 0x80 ≤ n && n < 0xA0
  else if a.toNat = 0xF0 then 0x90 ≤ n && n < 0xC0
  else if a.toNat = 0xF4 then 0x80 ≤ n && n < 0x90
  else 0x80 ≤ n && n < 0xC0

/-- Whether `b` continues a character. -/
def isContinuation (b : UInt8) : Bool := 0x80 ≤ b.toNat && b.toNat < 0xC0

/-- One step of reading: a character and the number of its bytes, or what is wrong and
how many bytes belong to it. -/
def utf8Step (a : UInt8) (rest : List UInt8) : Except (Utf8Fault × Nat) (Char × Nat) :=
  match startByte? a with
  | none => .error (.startByte, 1)
  | some (1, n) => .ok (Char.ofNat n, 1)
  | some (2, n) =>
    match rest with
    | [] => .error (.endOfData, 1)
    | b :: _ =>
      if secondByteOk a b then .ok (Char.ofNat (n * 64 + b.toNat % 64), 2)
      else .error (.continuationByte, 1)
  | some (3, n) =>
    match rest with
    | [] => .error (.endOfData, 1)
    | b :: rest =>
      if !secondByteOk a b then .error (.continuationByte, 1)
      else match rest with
        | [] => .error (.endOfData, 2)
        | c :: _ =>
          if isContinuation c then
            .ok (Char.ofNat ((n * 64 + b.toNat % 64) * 64 + c.toNat % 64), 3)
          else .error (.continuationByte, 2)
  | some (_, n) =>
    match rest with
    | [] => .error (.endOfData, 1)
    | b :: rest =>
      if !secondByteOk a b then .error (.continuationByte, 1)
      else match rest with
        | [] => .error (.endOfData, 2)
        | c :: rest =>
          if !isContinuation c then .error (.continuationByte, 2)
          else match rest with
            | [] => .error (.endOfData, 3)
            | d :: _ =>
              if isContinuation d then
                let high := (n * 64 + b.toNat % 64) * 64 + c.toNat % 64
                .ok (Char.ofNat (high * 64 + d.toNat % 64), 4)
              else .error (.continuationByte, 3)

/-- Reads the bytes from a position on; `fuel` bounds the number of steps.  The characters
are collected in reverse. -/
def decodeFrom : Nat → Nat → List Char → List UInt8 → Except Utf8Error (List Char)
  | 0, _, acc, _ => .ok acc.reverse
  | _ + 1, _, acc, [] => .ok acc.reverse
  | fuel + 1, position, acc, a :: rest =>
    match utf8Step a rest with
    | .ok (c, n) => decodeFrom fuel (position + n) (c :: acc) (rest.drop (n - 1))
    | .error (fault, n) => .error ⟨position, n, a, fault⟩

/-- The characters of some bytes, or their first ill-formed sequence. -/
def decodeChars (bs : List UInt8) : Except Utf8Error (List Char) :=
  decodeFrom bs.length 0 [] bs

/-- The text of some bytes, or their first ill-formed sequence. -/
def decode (bs : List UInt8) : Except Utf8Error String :=
  String.ofList <$> decodeChars bs

/-- Reads bytes with `U+FFFD` in the place of each ill-formed sequence. -/
def decodeLossyFrom : Nat → List UInt8 → List Char
  | 0, _ => []
  | _ + 1, [] => []
  | fuel + 1, a :: rest =>
    match utf8Step a rest with
    | .ok (c, n) => c :: decodeLossyFrom fuel (rest.drop (n - 1))
    | .error (_, n) => Char.ofNat 0xFFFD :: decodeLossyFrom fuel (rest.drop (n - 1))

/-- The text of some bytes, with `U+FFFD` in the place of each ill-formed sequence. -/
def decodeLossy (bs : List UInt8) : String :=
  String.ofList (decodeLossyFrom bs.length bs)

/-- Line ends of one or two characters as a newline. -/
def unifyLineEnds : List Char → List Char
  | [] => []
  | '\r' :: '\n' :: cs => '\n' :: unifyLineEnds cs
  | '\r' :: cs => '\n' :: unifyLineEnds cs
  | c :: cs => c :: unifyLineEnds cs

/-- The bytes of one character in UTF-16, low byte first. -/
def utf16Char (c : Char) : List UInt8 :=
  let unit (n : Nat) : List UInt8 := [UInt8.ofNat (n % 256), UInt8.ofNat (n / 256)]
  let n := c.toNat
  if n < 0x10000 then unit n
  else unit (0xD800 + (n - 0x10000) / 1024) ++ unit (0xDC00 + (n - 0x10000) % 1024)

/-- The bytes of a text in UTF-16, low byte first. -/
def utf16 (s : String) : List UInt8 := s.toList.flatMap utf16Char

/-- Two hexadecimal digits for each byte. -/
def hex (bs : List UInt8) : String :=
  String.ofList (bs.flatMap fun b => Text.hexDigits 2 b.toNat)

/-- The value of a hexadecimal digit. -/
def hexValue? (c : Char) : Option Nat :=
  let l := Text.lowerAscii c
  if l.isDigit then some (l.toNat - 48)
  else if 'a' ≤ l ∧ l ≤ 'f' then some (l.toNat - 87) else none

/-- The bytes of a row of hexadecimal digits. -/
def ofHexChars : List Char → Option (List UInt8)
  | [] => some []
  | a :: b :: cs => do
    let x ← hexValue? a
    let y ← hexValue? b
    return UInt8.ofNat (x * 16 + y) :: (← ofHexChars cs)
  | _ => none

end Encoding
end TweakEngine
