/-
# Set numbers of digits

Texts with a set number of places (`fixed`), as a percentage (`percent`) and with six
significant digits (`general`).  The exact value of the double is rounded, and a tie
goes to the even digit.
-/

import TweakEngine.Decimal.Shortest

namespace TweakEngine
namespace Decimal

/-- `n / 10^places`, with exactly that many places. -/
def placed (n places : Nat) : List Char :=
  if places = 0 then natChars n
  else
    let cs := natChars n
    let cs := List.replicate (places + 1 - cs.length) '0' ++ cs
    cs.take (cs.length - places) ++ '.' :: cs.drop (cs.length - places)

/-- A double with a set number of places. -/
def fixed (places : Nat) (x : Float) : String :=
  match Parts.ofFloat x with
  | .notANumber => "nan"
  | .infinite negative => if negative then "-inf" else "inf"
  | .finite negative m q _ =>
    let body := placed (roundDiv (numerator m q * Nat.pow 10 places) (denominator q)) places
    String.ofList (if negative then '-' :: body else body)

/-- A double as a whole percentage. -/
def percent (x : Float) : String :=
  fixed 0 (x * 100) ++ "%"

/-- The digits without the zeros at their end. -/
def dropZeros (cs : List Char) : List Char :=
  (cs.reverse.dropWhile (· == '0')).reverse

/-- A double with six significant digits and no zeros at the end; with an exponent when
the leading digit counts for less than `10^-4` or at least `10^6`. -/
def general (x : Float) : String :=
  match Parts.ofFloat x with
  | .notANumber => "nan"
  | .infinite negative => if negative then "-inf" else "inf"
  | .finite negative m q _ =>
    let body :=
      if m = 0 then ['0']
      else
        let k := magnitude (numerator m q) (denominator q)
        let e := k - 6
        let r := roundDiv (numerator m q * Nat.pow 10 (-e).toNat) (denominator q * Nat.pow 10 e.toNat)
        let point := if r < 1000000 then k else k + 1
        let cs := dropZeros (natChars r)
        if -4 < point ∧ point ≤ 6 then positional cs point else scientific cs (point - 1)
    String.ofList (if negative then '-' :: body else body)

end Decimal
end TweakEngine
