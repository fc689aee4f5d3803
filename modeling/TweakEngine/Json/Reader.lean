/-
# Reading JSON

A recursive descent over the characters, with the position of the next one.  Numbers
without a point and an exponent are integers of any size up to the digit limit, all
others doubles; `NaN`, `Infinity` and `-Infinity` are read too.  Of two fields with one
key the later value counts, in the place of the first.  Every fault names its place.
-/

import TweakEngine.Failure
import TweakEngine.Decimal.Numeral

namespace TweakEngine
namespace Json

/-- Why reading stopped: a fault at a position, or an integer with too many digits. -/
inductive Stop
  | fault (cause : Cause) (position : Nat)
  | tooLong (digits : Nat)

/-- A result, the next position and the characters from it on. -/
abbrev Rest (α : Type) := α × Nat × List Char

/-- The four blanks of JSON. -/
def isSpace (c : Char) : Bool := c == ' ' || c == '\t' || c == '\n' || c == '\r'

/-- Skips blanks. -/
def skipSpace : Nat → List Char → Nat × List Char
  | p, c :: cs => if isSpace c then skipSpace (p + 1) cs else (p, c :: cs)
  | p, [] => (p, [])

/-- The value of four hexadecimal digits. -/
def hex4? (a b c d : Char) : Option Nat := do
  let a ← Encoding.hexValue? a
  let b ← Encoding.hexValue? b
  let c ← Encoding.hexValue? c
  let d ← Encoding.hexValue? d
  return ((a * 16 + b) * 16 + c) * 16 + d

/-- The character of an escape of two characters. -/
def shortEscape? : Char → Option Char
  | '"' => some '"'
  | '\\' => some '\\'
  | '/' => some '/'
  | 'b' => some (Char.ofNat 8)
  | 'f' => some (Char.ofNat 12)
  | 'n' => some '\n'
  | 'r' => some '\r'
  | 't' => some '\t'
  | _ => none

/-- The character of one or two UTF-16 units; a unit that stands alone becomes `U+FFFD`. -/
def ofUnit (n : Nat) : Char :=
  if 0xD800 ≤ n ∧ n < 0xE000 then Char.ofNat 0xFFFD else Char.ofNat n

/-- Reads the rest of a text that began at `start`; the characters are collected in reverse. -/
def textFrom (start : Nat) : Nat → Nat → List Char → List Char → Except Stop (Rest String)
  | 0, _, _, _ => .error (.fault .openText start)
  | _ + 1, _, _, [] => .error (.fault .openText start)
  | fuel + 1, p, acc, c :: cs =>
    if c = '"' then .ok (String.ofList acc.reverse, p + 1, cs)
    else if c.toNat < 32 then .error (.fault .controlCharacter p)
    else if c ≠ '\\' then textFrom start fuel (p + 1) (c :: acc) cs
    else match cs with
      | [] => .error (.fault .openText start)
      | 'u' :: rest =>
        match rest with
        | a :: b :: c :: d :: e :: rest =>
          match hex4? a b c d with
          | none => .error (.fault .unicodeEscape (p + 1))
          | some high =>
            match high, e :: rest with
            | high, '\\' :: 'u' :: a' :: b' :: c' :: d' :: f :: rest' =>
              if 0xD800 ≤ high ∧ high < 0xDC00 then
                match hex4? a' b' c' d' with
                | none => .error (.fault .unicodeEscape (p + 7))
                | some low =>
                  if 0xDC00 ≤ low ∧ low < 0xE000 then
                    textFrom start fuel (p + 12)
                      (Char.ofNat (0x10000 + (high - 0xD800) * 1024 + (low - 0xDC00)) :: acc)
                      (f :: rest')
                  else textFrom start fuel (p + 6) (ofUnit high :: acc) (e :: rest)
              else textFrom start fuel (p + 6) (ofUnit high :: acc) (e :: rest)
            | high, rest => textFrom start fuel (p + 6) (ofUnit high :: acc) rest
        | _ => .error (.fault .unicodeEscape (p + 1))
      | e :: rest =>
        match shortEscape? e with
        | some c => textFrom start fuel (p + 2) (c :: acc) rest
        | none => .error (.fault .escape p)

/-- The longest run of ASCII digits. -/
def spanDigits (cs : List Char) : List Char × List Char :=
  (cs.takeWhile Char.isDigit, cs.dropWhile Char.isDigit)

/-- The value of a run of ASCII digits. -/
def digitsValue (ds : List Char) : Nat := ds.foldl (fun n d => n * 10 + (d.toNat - 48)) 0

/-- The places after a point, if digits follow it. -/
def takePlaces (cs : List Char) : Option (List Char) × List Char :=
  match cs with
  | '.' :: rest => match spanDigits rest with
    | ([], _) => (none, cs)
    | (ds, rest) => (some ds, rest)
  | _ => (none, cs)

/-- The exponent after its mark, if digits follow it. -/
def takeExponent (cs : List Char) : Option Int × List Char :=
  match cs with
  | e :: rest =>
    if e = 'e' ∨ e = 'E' then
      let (negative, rest) := Decimal.takeSign rest
      match spanDigits rest with
      | ([], _) => (none, cs)
      | (ds, rest) =>
        let n : Int := digitsValue ds
        (some (if negative then -n else n), rest)
    else (none, cs)
  | [] => (none, cs)

/-- Reads a number at `p`. -/
def number (p : Nat) (cs : List Char) : Except Stop (Rest Datum) :=
  let (negative, body) := match cs with
    | '-' :: rest => (true, rest)
    | cs => (false, cs)
  let (whole, rest) := match body with
    | '0' :: rest => (['0'], rest)
    | body => spanDigits body
  if whole.isEmpty then .error (.fault .value p)
  else
    let (places, rest) := takePlaces rest
    let (exponent, rest) := takeExponent rest
    let next := p + (cs.length - rest.length)
    match places, exponent with
    | none, none =>
      if whole.length > Decimal.maxDigits then .error (.tooLong whole.length)
      else
        let n : Int := digitsValue whole
        .ok (.int (if negative then -n else n), next, rest)
    | places, exponent =>
      let ds := places.getD []
      let x := Decimal.scale (digitsValue (whole ++ ds)) (exponent.getD 0 - ds.length)
      .ok (.float (if negative then -x else x), next, rest)

/-- The words that stand for a value. -/
def words : List (List Char × Datum) :=
  [("null".toList, .null), ("true".toList, .bool true), ("false".toList, .bool false),
   ("NaN".toList, .float (0.0 / 0.0)), ("Infinity".toList, .float (1.0 / 0.0)),
   ("-Infinity".toList, .float (-1.0 / 0.0))]

/-- Reads a word or a number at `p`. -/
def scalar (p : Nat) (cs : List Char) : Except Stop (Rest Datum) :=
  match words.find? fun w => w.1.isPrefixOf cs with
  | some (word, d) => .ok (d, p + word.length, cs.drop word.length)
  | none => number p cs

mutual

/-- Reads a value at `p`; `fuel` bounds the number of nested steps. -/
def value : Nat → Nat → List Char → Except Stop (Rest Datum)
  | 0, p, _ => .error (.fault .value p)
  | _ + 1, p, [] => .error (.fault .value p)
  | _ + 1, p, '"' :: cs => do
    let (s, p, cs) ← textFrom p (cs.length + 1) (p + 1) [] cs
    return (.text s, p, cs)
  | fuel + 1, p, '[' :: cs =>
    match skipSpace (p + 1) cs with
    | (p, ']' :: cs) => .ok (.list [], p + 1, cs)
    | (p, cs) => do
      let (items, p, cs) ← items fuel p cs
      return (.list items, p, cs)
  | fuel + 1, p, '\x7b' :: cs =>
    match skipSpace (p + 1) cs with
    | (p, '\x7d' :: cs) => .ok (.object [], p + 1, cs)
    | (p, cs) => do
      let (fields, p, cs) ← fields fuel [] p cs
      return (.object fields, p, cs)
  | _ + 1, p, c :: cs => scalar p (c :: cs)

/-- Reads the items of a list up to its end. -/
def items : Nat → Nat → List Char → Except Stop (Rest (List Datum))
  | 0, p, _ => .error (.fault .value p)
  | fuel + 1, p, cs => do
    let (item, p, cs) ← value fuel p cs
    match skipSpace p cs with
    | (p, ']' :: cs) => return ([item], p + 1, cs)
    | (p, ',' :: cs) =>
      let (p, cs) := skipSpace (p + 1) cs
      let (rest, p, cs) ← items fuel p cs
      return (item :: rest, p, cs)
    | (p, _) => .error (.fault .comma p)

/-- Reads the fields of an object up to its end, after the fields `acc`. -/
def fields : Nat → List (String × Datum) → Nat → List Char →
    Except Stop (Rest (List (String × Datum)))
  | 0, _, p, _ => .error (.fault .value p)
  | fuel + 1, acc, p, '"' :: cs => do
    let (key, p, cs) ← textFrom p (cs.length + 1) (p + 1) [] cs
    match skipSpace p cs with
    | (p, ':' :: cs) =>
      let (p, cs) := skipSpace (p + 1) cs
      let (item, p, cs) ← value fuel p cs
      let acc := Assoc.put key item acc
      match skipSpace p cs with
      | (p, '\x7d' :: cs) => return (acc, p + 1, cs)
      | (p, ',' :: cs) =>
        let (p, cs) := skipSpace (p + 1) cs
        fields fuel acc p cs
      | (p, _) => .error (.fault .comma p)
    | (p, _) => .error (.fault .colon p)
  | _ + 1, _, p, _ => .error (.fault .propertyName p)

end

/-- The refusal of an integer for its number of digits. -/
def tooLongText (digits : Nat) : String :=
  "Exceeds the limit (" ++ toString Decimal.maxDigits ++
    " digits) for integer string conversion: value has " ++ toString digits ++
    " digits; use sys.set_int_max_str_digits() to increase the limit"

/-- The value of a JSON text. -/
def read (s : String) : Except Failure Datum :=
  let cs := s.toList
  let fault (cause : Cause) (p : Nat) : Failure := .json (Fault.at cause p cs)
  if cs.head? = some (Char.ofNat 0xFEFF) then .error (fault .byteOrderMark 0)
  else
    let (p, rest) := skipSpace 0 cs
    match value (2 * cs.length + 2) p rest with
    | .error (.fault cause p) => .error (fault cause p)
    | .error (.tooLong digits) => .error (.badValue (tooLongText digits))
    | .ok (d, p, rest) =>
      match skipSpace p rest with
      | (_, []) => .ok d
      | (p, _) => .error (fault .extraData p)

end Json
end TweakEngine
