/-
# Doubles as exact numbers

A finite double is `± m · 2^q` with natural `m`.  `Parts` holds that form, and the
quotient `numerator / denominator` is the same number without a negative exponent.
Everything that is written about a double is decided on this exact value.
-/

namespace TweakEngine
namespace Decimal

/-- A double taken apart. -/
inductive Parts
  | notANumber
  | infinite (negative : Bool)
  /-- `± m · 2^q`; `coarse` says that the next smaller double is half a step away. -/
  | finite (negative : Bool) (m : Nat) (q : Int) (coarse : Bool)
  deriving DecidableEq, Repr

/-- The parts of a double, from its 64 bits. -/
def Parts.ofFloat (x : Float) : Parts :=
  let bits := x.toBits.toNat
  let negative := bits / Nat.pow 2 63 == 1
  let e : Nat := bits / Nat.pow 2 52 % 2048
  let f : Nat := bits % Nat.pow 2 52
  if e = 2047 then (if f = 0 then .infinite negative else .notANumber)
  else if e = 0 then .finite negative f (-1074) false
  else .finite negative (f + Nat.pow 2 52) ((e : Int) - 1075) (f == 0 && e > 1)

/-- The numerator of `m · 2^q` over `denominator q`. -/
def numerator (m : Nat) (q : Int) : Nat := m * Nat.pow 2 q.toNat

/-- The denominator that belongs to the exponent `q`. -/
def denominator (q : Int) : Nat := Nat.pow 2 (-q).toNat

/-- The quotient rounded to the nearest natural number, a half to the even one. -/
def roundDiv (num den : Nat) : Nat :=
  let d := num / den
  let r := num % den
  if 2 * r < den then d
  else if 2 * r > den then d + 1
  else d + d % 2

/-- The integer nearest to a finite double towards zero. -/
def truncate? (x : Float) : Option Int :=
  match Parts.ofFloat x with
  | .finite negative m q _ =>
    let n : Int := numerator m q / denominator q
    some (if negative then -n else n)
  | _ => none

/-- Whether a double is a finite integer. -/
def isIntegral (x : Float) : Bool :=
  match Parts.ofFloat x with
  | .finite _ m q _ => numerator m q % denominator q == 0
  | _ => false

/-- The double nearest to an integer; too large ones give an infinity. -/
def ofInt (n : Int) : Float :=
  let x := Float.ofScientific n.natAbs false 0
  if n < 0 then -x else x

/-- Whether a double is an infinity. -/
def isInfinite (x : Float) : Bool :=
  match Parts.ofFloat x with
  | .infinite _ => true
  | _ => false

end Decimal
end TweakEngine
