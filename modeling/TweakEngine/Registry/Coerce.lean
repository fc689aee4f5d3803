/-
# From loosely typed values to registry values

`RegistryValue.coerce` resolves what a catalog or snapshot file holds against a declared
kind; an absent value stays absent.  A negative number becomes the number of the kind's
width that is congruent to it.  `RegistryValue.toJson` gives the form that files hold.
-/

import TweakEngine.Datum.Number

namespace TweakEngine
namespace RegistryValue

/-- The form of a value in catalog and snapshot files. -/
def toJson : RegistryValue → Datum
  | string s | expandString s => .text s
  | dword n => .int n.toNat
  | qword n => .int n.toNat
  | binary bytes => .text (Base64.encode bytes)
  | multiString lines => .list (lines.map .text)

/-- The payload of a value as a loosely typed value. -/
def payload : RegistryValue → Datum
  | string s | expandString s => .text s
  | dword n => .int n.toNat
  | qword n => .int n.toNat
  | binary bytes => .bytes bytes
  | multiString lines => .tuple (lines.map .text)

/-- A numeral in base ten, or in base sixteen after `0x`. -/
def readNumeral (s : String) : Except Decimal.NumeralError Int :=
  if "0x".toList.isPrefixOf (Text.lowerWord s).toList then Decimal.readHex s else Decimal.readInt s

/-- The refusal of a value for a kind. -/
def unusable (raw : Datum) (kind : ValueKind) : Failure :=
  .malformed (.unusable raw.quoted kind.label)

/-- The integer that a value stands for in a numeric kind. -/
def integerOf (raw : Datum) (kind : ValueKind) : Except Failure Int :=
  match raw with
  | .text s =>
    match readNumeral (Text.trim s) with
    | .ok n => .ok n
    | .error _ => .error (unusable raw kind)
  | raw =>
    match raw.integral? with
    | some n => .ok n
    | none => .error (unusable raw kind)

/-- Whether an integer fits in a width, with or without a sign. -/
def fits (width : Nat) (n : Int) : Bool :=
  -(Nat.pow 2 (width - 1) : Int) ≤ n && n < (Nat.pow 2 width : Int)

/-- The refusal of an integer for a width; one too long to be written is refused for that. -/
def tooWide (n : Int) (kind : ValueKind) : Failure :=
  if (Decimal.natChars n.natAbs).length > Decimal.maxDigits then
    .badValue ("Exceeds the limit (" ++ toString Decimal.maxDigits ++
      " digits) for integer string conversion; " ++
      "use sys.set_int_max_str_digits() to increase the limit")
  else .malformed (.tooWide n kind.label)

/-- The byte that a list item stands for. -/
def byteOf (d : Datum) : Except Failure UInt8 := do
  let n ← d.toInt
  if 0 ≤ n ∧ n < 256 then return UInt8.ofNat n.toNat
  else throw (.badValue "bytes must be in range(0, 256)")

/-- The bytes that a list stands for. -/
def bytesOf (items : List Datum) : Except Failure (List UInt8) :=
  match items.mapM byteOf with
  | .ok bytes => .ok bytes
  | .error (.overflow text) => .error (.overflow text)
  | .error f => .error (.malformed (.byteList f.message))

/-- A typed value out of a value that is not itself typed. -/
def coercePlain (raw : Datum) (kind : ValueKind) : Except Failure RegistryValue :=
  match kind with
  | .dword => do
    let n ← integerOf raw kind
    if fits 32 n then return dword (BitVec.ofInt 32 n) else throw (tooWide n kind)
  | .qword => do
    let n ← integerOf raw kind
    if fits 64 n then return qword (BitVec.ofInt 64 n) else throw (tooWide n kind)
  | .string => match raw with
    | .list _ | .tuple _ | .object _ | .bytes _ => .error (unusable raw kind)
    | raw => .ok (string raw.display)
  | .expandString => match raw with
    | .list _ | .tuple _ | .object _ | .bytes _ => .error (unusable raw kind)
    | raw => .ok (expandString raw.display)
  | .multiString => match raw with
    | .text s => .ok (multiString ((Text.splitOnChar '\n' s).filter (· ≠ "")))
    | .list items | .tuple items => .ok (multiString (items.map Datum.display))
    | raw => .error (unusable raw kind)
  | .binary => match raw with
    | .bytes bytes => .ok (binary bytes)
    | .text s => match Base64.decode s with
      | .ok bytes => .ok (binary bytes)
      | .error e => .error (.malformed (.base64 e))
    | .list items | .tuple items => do return binary (← bytesOf items)
    | raw => .error (unusable raw kind)

/-- The typed value of a kind that a value stands for; an absent value gives none. -/
def coerce (raw : Datum) (kind : ValueKind) : Except Failure (Option RegistryValue) :=
  match raw with
  | .null => .ok none
  | .registry v => some <$> coercePlain v.payload kind
  | raw => some <$> coercePlain raw kind

end RegistryValue
end TweakEngine
