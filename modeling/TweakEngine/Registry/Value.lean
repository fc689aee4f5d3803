/-
# Registry values

A value is a payload of one of the six kinds: numbers of 32 and 64 bits, text, bytes,
or a list of texts.  The type admits no payload that its kind does not.
-/

import TweakEngine.Registry.Hive
import TweakEngine.Encoding.Base64
import TweakEngine.Encoding.Utf8
import TweakEngine.Text.Blank

namespace TweakEngine

/-- A typed registry value. -/
inductive RegistryValue
  | string (s : String)
  | expandString (s : String)
  | dword (n : BitVec 32)
  | qword (n : BitVec 64)
  | binary (bytes : List UInt8)
  | multiString (lines : List String)
  deriving DecidableEq, Repr

namespace RegistryValue

/-- The kind of a value. -/
def kind : RegistryValue → ValueKind
  | string _ => .string
  | expandString _ => .expandString
  | dword _ => .dword
  | qword _ => .qword
  | binary _ => .binary
  | multiString _ => .multiString

/-- A value as a reader sees it: bytes in hexadecimal, texts separated by commas. -/
def display : RegistryValue → String
  | string s | expandString s => s
  | dword n => toString n.toNat
  | qword n => toString n.toNat
  | binary bytes => Encoding.hex bytes
  | multiString lines => Text.join ", " lines

end RegistryValue
end TweakEngine
