/-
# Blanks and line ends

The blanks that trimming removes are the sixteen ranges of Unicode white space and
the four information separators `U+001C` to `U+001F`.  A text is trimmed on both
sides (`trim`).  Lines end at more places than a newline: `firstLine` cuts at the
first of them.
-/

namespace TweakEngine
namespace Text

/-- Unicode white space, and the information separators. -/
def isBlank (c : Char) : Bool :=
  let n := c.toNat
  (9 ≤ n && n ≤ 13) || (28 ≤ n && n ≤ 32) || n == 0x85 || n == 0xA0 || n == 0x1680 ||
    (0x2000 ≤ n && n ≤ 0x200A) || n == 0x2028 || n == 0x2029 || n == 0x202F || n == 0x205F ||
    n == 0x3000

/-- The characters without the blanks at either end. -/
def trimChars (cs : List Char) : List Char :=
  ((cs.dropWhile isBlank).reverse.dropWhile isBlank).reverse

/-- A text without the blanks at either end. -/
def trim (s : String) : String :=
  String.ofList (trimChars s.toList)

/-- A text without the blanks at its end. -/
def trimEnd (s : String) : String :=
  String.ofList (s.toList.reverse.dropWhile isBlank).reverse

/-- Whether a text holds nothing but blanks. -/
def isBlankText (s : String) : Bool :=
  s.toList.all isBlank

/-- The characters that end a line. -/
def isLineEnd (c : Char) : Bool :=
  let n := c.toNat
  (10 ≤ n && n ≤ 13) || (28 ≤ n && n ≤ 30) || n == 0x85 || n == 0x2028 || n == 0x2029

/-- A text up to its first line end. -/
def firstLine (s : String) : String :=
  String.ofList (s.toList.takeWhile fun c => !isLineEnd c)

/-- The lines of a text without their ends.  A carriage return and the line feed after it
are one end, and nothing after the last end is no line. -/
def lineChars : List Char → List Char → List (List Char)
  | line, [] => if line = [] then [] else [line.reverse]
  | line, '\r' :: '\n' :: cs => line.reverse :: lineChars [] cs
  | line, c :: cs =>
    if isLineEnd c then line.reverse :: lineChars [] cs else lineChars (c :: line) cs

/-- The lines of a text. -/
def lines (s : String) : List String := (lineChars [] s.toList).map String.ofList

/-- Cuts at the first character that satisfies `p`, which is dropped. -/
def cutAt (p : Char → Bool) : List Char → List Char × Option (List Char)
  | [] => ([], none)
  | c :: cs =>
    if p c then ([], some cs)
    else let (head, tail) := cutAt p cs; (c :: head, tail)

/-- The pieces between the occurrences of one character; always at least one. -/
def splitChars (sep : Char) : List Char → List (List Char)
  | [] => [[]]
  | c :: cs =>
    if c = sep then [] :: splitChars sep cs
    else match splitChars sep cs with
      | [] => [[c]]
      | piece :: rest => (c :: piece) :: rest

/-- The pieces of a text between the occurrences of one character. -/
def splitOnChar (sep : Char) (s : String) : List String :=
  (splitChars sep s.toList).map String.ofList

/-- Whether the characters `needle` occur in a row. -/
def occurs (needle : List Char) : List Char → Bool
  | [] => needle.isEmpty
  | c :: cs => needle.isPrefixOf (c :: cs) || occurs needle cs

/-- Whether `needle` occurs in `s`; the empty text occurs in every text. -/
def contains (s needle : String) : Bool :=
  occurs needle.toList s.toList

/-- The texts joined by `sep`. -/
def join (sep : String) (parts : List String) : String :=
  sep.intercalate parts

/-- `a` comes before `b` in the order of code points. -/
def before (a b : String) : Bool := decide (a < b)

/-- Sorted by code points; equal texts keep their order. -/
def sort (xs : List String) : List String :=
  xs.mergeSort fun a b => !before b a

end Text
end TweakEngine
