/-
# Numbers out of loosely typed values

Fields that must be numbers accept whatever stands for one: a truth value, a double
without its places, a numeral in a text.  Everything else is refused, and the refusal
says why.
-/

import TweakEngine.Json.Reader

namespace TweakEngine
namespace Datum

/-- The text that stands in the refusal of a numeral, at most 200 characters of it. -/
def shortened (s : String) : String := String.ofList (s.toList.take 200)

/-- The refusal of a text that is no integer. -/
def intRefusal (shown : String) : Decimal.NumeralError → Failure
  | .invalid => .badValue ("invalid literal for int() with base 10: " ++ shortened shown)
  | .tooLong digits => .badValue (Json.tooLongText digits)

/-- Bytes as characters, where they are ASCII. -/
def asciiText (bs : List UInt8) : String :=
  String.ofList (bs.map fun b => if b < 128 then Char.ofNat b.toNat else '?')

/-- The integer that a value stands for. -/
def toInt : Datum → Except Failure Int
  | bool b => .ok (if b then 1 else 0)
  | int n => .ok n
  | float x =>
    match Decimal.truncate? x with
    | some n => .ok n
    | none =>
      if Decimal.isInfinite x then .error (.overflow "cannot convert float infinity to integer")
      else .error (.badValue "cannot convert float NaN to integer")
  | text s => (Decimal.readInt s).mapError (intRefusal (Text.quoted s))
  | bytes bs => (Decimal.readInt (asciiText bs)).mapError (intRefusal (Text.quotedBytes bs))
  | d => .error (.mistyped
      ("int() argument must be a string, a bytes-like object or a real number, not '" ++
        d.form ++ "'"))

/-- The double nearest to an integer, if it is not too large. -/
def floatOfInt (n : Int) : Except Failure Float :=
  let x := Decimal.ofInt n
  if Decimal.isInfinite x then .error (.overflow "int too large to convert to float") else .ok x

/-- The double that a value stands for. -/
def toFloat : Datum → Except Failure Float
  | bool b => .ok (if b then 1 else 0)
  | int n => floatOfInt n
  | float x => .ok x
  | text s =>
    match Decimal.readFloat s with
    | some x => .ok x
    | none => .error (.badValue ("could not convert string to float: " ++ Text.quoted s))
  | bytes bs =>
    match Decimal.readFloat (asciiText bs) with
    | some x => .ok x
    | none => .error (.badValue ("could not convert string to float: " ++ Text.quotedBytes bs))
  | d => .error (.mistyped
      ("float() argument must be a string or a real number, not '" ++ d.form ++ "'"))

/-- The integer that equals a number, if one does. -/
def integral? : Datum → Option Int
  | bool b => some (if b then 1 else 0)
  | int n => some n
  | float x => if Decimal.isIntegral x then Decimal.truncate? x else none
  | _ => none

mutual

/-- Equality of values: numbers by their value in whichever form, objects regardless of
the order of their fields, everything else by form and content. -/
def same : Datum → Datum → Bool
  | null, null => true
  | text a, text b => a == b
  | bytes a, bytes b => a == b
  | registry a, registry b => a == b
  | list a, list b => sameItems a b
  | tuple a, tuple b => sameItems a b
  | object a, object b => a.length == b.length && sameFields a b
  | float a, float b => a == b || a.toBits == b.toBits
  | a, b =>
    match a.integral?, b.integral? with
    | some m, some n => m == n
    | _, _ => false

/-- Equality of two lists item by item. -/
def sameItems : List Datum → List Datum → Bool
  | [], [] => true
  | a :: as, b :: bs => same a b && sameItems as bs
  | _, _ => false

/-- Whether every field of the first object has an equal one in the second. -/
def sameFields : List (String × Datum) → List (String × Datum) → Bool
  | [], _ => true
  | (key, a) :: as, bs =>
    (match Assoc.get? key bs with
      | some b => same a b
      | none => false) && sameFields as bs

end

/-- A value may be an element of a set when it is not a list or an object. -/
def isHashable : Datum → Bool
  | list _ | object _ => false
  | _ => true

end Datum
end TweakEngine
