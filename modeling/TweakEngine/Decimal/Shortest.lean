/-
# The shortest decimal that reads back

Of all decimals that round to a given double, the one with the fewest digits is
written, and of those the nearest.  The reals that round to `m · 2^q` form an
interval around it that reaches half way to either neighbour and holds its ends
exactly when `m` is even.  For one digit, two digits, … the two decimals next to the
value are tried; seventeen digits always suffice.
-/

import TweakEngine.Decimal.Binary

namespace TweakEngine
namespace Decimal

/-- The least `k` with `num / den < 10^k`, searched upwards from `k`. -/
def magnitudeFrom (num den : Nat) : Nat → Int → Int
  | 0, k => k
  | fuel + 1, k =>
    let small := if k < 0 then num * Nat.pow 10 (-k).toNat < den else num < den * Nat.pow 10 k.toNat
    if small then k else magnitudeFrom num den fuel (k + 1)

/-- The `k` with `10^(k-1) ≤ num / den < 10^k`, for a positive double. -/
def magnitude (num den : Nat) : Int :=
  magnitudeFrom num den 700 (-330)

/-- A decimal `digits · 10^exponent`. -/
structure Digits where
  digits : Nat
  exponent : Int
  deriving DecidableEq, Repr

/-- Drops the zeros at the end of the digits, at most `fuel` of them. -/
def Digits.strip : Nat → Digits → Digits
  | 0, d => d
  | fuel + 1, d =>
    if d.digits ≠ 0 ∧ d.digits % 10 = 0 then strip fuel ⟨d.digits / 10, d.exponent + 1⟩ else d

/-- Whether `c · 10^e` rounds to the double `m · 2^q`. -/
def roundsTo (m : Nat) (q : Int) (coarse : Bool) (c : Nat) (e : Int) : Bool :=
  -- everything in quarters of the step: the value is `4m`, the ends are `4m - 2` (or
  -- `4m - 1`) and `4m + 2`
  let point := c * Nat.pow 10 e.toNat * denominator (q - 2)
  let unit := Nat.pow 2 (q - 2).toNat * Nat.pow 10 (-e).toNat
  let lower := (if coarse then 4 * m - 1 else 4 * m - 2) * unit
  let upper := (4 * m + 2) * unit
  if m % 2 = 0 then lower ≤ point && point ≤ upper else lower < point && point < upper

/-- The decimal with `n` digits that rounds to the double and is nearest to it. -/
def nearestWith (m : Nat) (q : Int) (coarse : Bool) (k : Int) (n : Nat) : Option Digits :=
  let e := k - n
  let num := numerator m q * Nat.pow 10 (-e).toNat
  let den := denominator q * Nat.pow 10 e.toNat
  let d := num / den
  let lowHit := roundsTo m q coarse d e
  let highHit := roundsTo m q coarse (d + 1) e
  if lowHit && highHit then some ⟨roundDiv num den, e⟩
  else if lowHit then some ⟨d, e⟩
  else if highHit then some ⟨d + 1, e⟩
  else none

/-- The shortest decimal of the positive double `m · 2^q`. -/
def shortest (m : Nat) (q : Int) (coarse : Bool) : Digits :=
  let k := magnitude (numerator m q) (denominator q)
  let found := (List.range 17).findSome? fun i => nearestWith m q coarse k (i + 1)
  match found with
  | some d => d.strip 20
  | none =>
    ⟨roundDiv (numerator m q * Nat.pow 10 (17 - k).toNat) (denominator q * Nat.pow 10 (k - 17).toNat),
      k - 17⟩

/-- The decimal digits of a natural number. -/
def natChars (n : Nat) : List Char := Nat.toDigits 10 n

/-- The decimal digits of an integer. -/
def intText (n : Int) : String :=
  if n < 0 then String.ofList ('-' :: natChars n.natAbs) else String.ofList (natChars n.natAbs)

/-- An exponent after its mark: a sign and at least two digits. -/
def exponentChars (e : Int) : List Char :=
  let digits := natChars e.natAbs
  (if e < 0 then '-' else '+') :: (if digits.length < 2 then '0' :: digits else digits)

/-- Digits with the point after the first of them, and an exponent. -/
def scientific (digits : List Char) (e : Int) : List Char :=
  match digits with
  | [] => []
  | [d] => d :: 'e' :: exponentChars e
  | d :: rest => d :: '.' :: rest ++ 'e' :: exponentChars e

/-- Digits with the point after the first `point` of them. -/
def positional (digits : List Char) (point : Int) : List Char :=
  if point ≤ 0 then '0' :: '.' :: List.replicate (-point).toNat '0' ++ digits
  else if point.toNat < digits.length then
    digits.take point.toNat ++ '.' :: digits.drop point.toNat
  else digits ++ List.replicate (point.toNat - digits.length) '0'

/-- The shortest text of a double that reads back as it: positional when the leading
digit counts for at least `10^-4` and less than `10^16`, always with a point or an
exponent. -/
def render (x : Float) : String :=
  match Parts.ofFloat x with
  | .notANumber => "nan"
  | .infinite negative => if negative then "-inf" else "inf"
  | .finite negative m q coarse =>
    let body :=
      if m = 0 then ['0', '.', '0']
      else
        let d := shortest m q coarse
        let cs := natChars d.digits
        let point := (cs.length : Int) + d.exponent
        if -4 < point ∧ point ≤ 16 then
          let t := positional cs point
          if t.contains '.' then t else t ++ ['.', '0']
        else scientific cs (point - 1)
    String.ofList (if negative then '-' :: body else body)

end Decimal
end TweakEngine
