/-
# Writing JSON

Two layouts: on one line, or indented with one item or field on each line.  Texts are
written in ASCII: what is outside it becomes one or two `\u` escapes.  Doubles are
written as their shortest decimal.
-/

import TweakEngine.Datum

namespace TweakEngine
namespace Json

/-- Four hexadecimal digits after `\u`. -/
def unicodeEscape (n : Nat) : List Char := '\\' :: 'u' :: Text.hexDigits 4 n

/-- One character inside the quotes. -/
def escapeChar (c : Char) : List Char :=
  let n := c.toNat
  if c = '"' then ['\\', '"']
  else if c = '\\' then ['\\', '\\']
  else if c = '\n' then ['\\', 'n']
  else if c = '\r' then ['\\', 'r']
  else if c = '\t' then ['\\', 't']
  else if n = 8 then ['\\', 'b']
  else if n = 12 then ['\\', 'f']
  else if 32 ≤ n ∧ n < 127 then [c]
  else if n < 0x10000 then unicodeEscape n
  else
    unicodeEscape (0xD800 + (n - 0x10000) / 1024) ++ unicodeEscape (0xDC00 + (n - 0x10000) % 1024)

/-- A text in quotes. -/
def escaped (s : String) : String :=
  String.ofList ('"' :: s.toList.flatMap escapeChar ++ ['"'])

/-- A double; the values that are no numbers have names. -/
def doubleText (x : Float) : String :=
  match Decimal.Parts.ofFloat x with
  | .notANumber => "NaN"
  | .infinite negative => if negative then "-Infinity" else "Infinity"
  | .finite .. => Decimal.render x

/-- How a text is laid out. -/
inductive Layout
  | oneLine
  /-- Each level of nesting is indented by this many blanks more. -/
  | indented (width : Nat)
  deriving DecidableEq, Repr

/-- The separator of items at a depth, and what stands before the first and after the last. -/
def Layout.breaks (l : Layout) (depth : Nat) : String × String × String :=
  match l with
  | .oneLine => ("", ", ", "")
  | .indented width =>
    let inner := "\n" ++ String.ofList (List.replicate (width * (depth + 1)) ' ')
    (inner, "," ++ inner, "\n" ++ String.ofList (List.replicate (width * depth) ' '))

/-- Items between brackets. -/
def Layout.bracket (l : Layout) (depth : Nat) (opening closing : String) (parts : List String) :
    String :=
  if parts.isEmpty then opening ++ closing
  else
    let (first, separator, last) := l.breaks depth
    opening ++ first ++ Text.join separator parts ++ last ++ closing

/-- The payload of a registry value at a depth of nesting. -/
def payload (l : Layout) (depth : Nat) : RegistryValue → String
  | .string s | .expandString s => escaped s
  | .dword n => toString n.toNat
  | .qword n => toString n.toNat
  | .binary bs => escaped (Text.quotedBytes bs)
  | .multiString lines => l.bracket depth "[" "]" (lines.map escaped)

mutual

/-- A value at a depth of nesting.  Bytes are written as their literal, and a registry
value by its kind and payload. -/
def writeAt (l : Layout) (depth : Nat) : Datum → String
  | .null => "null"
  | .bool b => if b then "true" else "false"
  | .int n => Decimal.intText n
  | .float x => doubleText x
  | .text s => escaped s
  | .list items | .tuple items => l.bracket depth "[" "]" (writeItems l (depth + 1) items)
  | .object fields => l.bracket depth "\x7b" "\x7d" (writeFields l (depth + 1) fields)
  | .bytes bs => escaped (Text.quotedBytes bs)
  | .registry v => l.bracket depth "\x7b" "\x7d"
      ["\"kind\": " ++ escaped v.kind.label, "\"data\": " ++ payload l (depth + 1) v]

/-- The items of a list. -/
def writeItems (l : Layout) (depth : Nat) : List Datum → List String
  | [] => []
  | item :: items => writeAt l depth item :: writeItems l depth items

/-- The fields of an object. -/
def writeFields (l : Layout) (depth : Nat) : List (String × Datum) → List String
  | [] => []
  | (key, value) :: fields =>
    (escaped key ++ ": " ++ writeAt l depth value) :: writeFields l depth fields

end

mutual

/-- The first value that has no form of its own in JSON: bytes or a registry value. -/
def foreign? : Datum → Option Datum
  | .bytes bs => some (.bytes bs)
  | .registry v => some (.registry v)
  | .list items | .tuple items => foreignItem? items
  | .object fields => foreignField? fields
  | _ => none

/-- The first such value among items. -/
def foreignItem? : List Datum → Option Datum
  | [] => none
  | item :: items => (foreign? item).or (foreignItem? items)

/-- The first such value among fields. -/
def foreignField? : List (String × Datum) → Option Datum
  | [] => none
  | (_, value) :: fields => (foreign? value).or (foreignField? fields)

end

/-- A value as JSON. -/
def write (l : Layout) (d : Datum) : String := writeAt l 0 d

/-- The layout of the files that the engine writes. -/
def fileLayout : Layout := .indented 2

end Json
end TweakEngine
