/-
# Doubles in order

A finite double is a fraction (`Decimal.exact`).  Doubles are compared by sign, exponent and
mantissa, and that is the order of the fractions (`Decimal.lt_iff_exact_lt`): a double has as small
an exponent as its mantissa allows, so that a larger exponent alone makes a larger number
(`Decimal.Scaled.lt_of_power_lt`).  Choosing among doubles is therefore exact, while adding and
sharing them out is not.

The grade of a rule is finite, whatever its catalog says (`Detection.isFinite_clamp`).
-/

import Mathlib.Algebra.Order.Field.Power
import Mathlib.Algebra.Order.Field.Rat
import Mathlib.Tactic.GCongr
import Mathlib.Tactic.NormNum
import Mathlib.Tactic.Positivity
import Mathlib.Tactic.Ring
import TweakEngine.Detection.Detector

namespace TweakEngine
namespace Decimal

open Float.Model UnpackedFloat

/-! ## Doubles as fractions -/

/-- The fraction that the parts of a finite double make. -/
def Parts.value : Parts → ℚ
  | .finite negative m q _ =>
    let size : ℚ := (numerator m q : ℚ) / (denominator q : ℚ)
    if negative then -size else size
  | _ => 0

/-- The fraction that a finite double is. -/
def exact (x : Float) : ℚ := (Parts.ofFloat x).value

theorem numerator_div_denominator (m : Nat) (q : Int) :
    (numerator m q : ℚ) / (denominator q : ℚ) = m * 2 ^ q := by
  have hpow : ∀ n, (Nat.pow 2 n : ℚ) = 2 ^ n := fun n => Nat.cast_pow 2 n
  unfold numerator denominator
  rw [Nat.cast_mul, hpow, hpow]
  rcases Int.le_total 0 q with hq | hq
  · rw [Int.toNat_of_nonpos (Int.neg_nonpos_of_nonneg hq), pow_zero, div_one]
    conv_rhs => rw [← Int.toNat_of_nonneg hq, zpow_natCast]
  · rw [Int.toNat_of_nonpos hq, pow_zero, mul_one]
    conv_rhs => rw [← Int.neg_neg q, ← Int.toNat_of_nonneg (Int.neg_nonneg_of_nonpos hq), zpow_neg,
      zpow_natCast, ← div_eq_mul_inv]

theorem value_finite (negative : Bool) (m : Nat) (q : Int) (coarse : Bool) :
    (Parts.finite negative m q coarse).value =
      if negative then -((m : ℚ) * 2 ^ q) else (m : ℚ) * 2 ^ q := by
  rw [Parts.value, numerator_div_denominator]

theorem value_zero (negative : Bool) (q : Int) (coarse : Bool) :
    (Parts.finite negative 0 q coarse).value = 0 := by
  rw [value_finite, Nat.cast_zero, zero_mul, neg_zero, ite_self]

/-! ## The fields of a double -/

/-- The sign is that of negative numbers. -/
def negates : Sign → Bool
  | .negative => true
  | .positive => false

/-- The places of a double, without the first one if that is understood. -/
def places (x : Float) : BitVec 52 := @unpackMantissa Format.binary64 x.toModel.toBits.toBitVec

/-- The exponent of a double as its bits have it. -/
def biased (x : Float) : BitVec 11 := @unpackExponent Format.binary64 x.toModel.toBits.toBitVec

/-- The sign of a double. -/
def signOf (x : Float) : Sign :=
  .ofBitVec (@unpackSign Format.binary64 x.toModel.toBits.toBitVec)

variable {x y : Float}

theorem toNat_places (x : Float) : (places x).toNat = x.toBits.toNat % Nat.pow 2 52 := by
  unfold places unpackMantissa
  rw [BitVec.toNat_cast, BitVec.extractLsb_toNat, Nat.shiftRight_zero]
  rfl

theorem toNat_biased (x : Float) : (biased x).toNat = x.toBits.toNat / Nat.pow 2 52 % 2048 := by
  unfold biased unpackExponent
  rw [BitVec.toNat_cast, BitVec.extractLsb_toNat, Nat.shiftRight_eq_div_pow]
  rfl

theorem negates_signOf (x : Float) :
    negates (signOf x) = (x.toBits.toNat / Nat.pow 2 63 == 1) := by
  have hlt : x.toBits.toNat / Nat.pow 2 63 < 2 :=
    Nat.div_lt_of_lt_mul x.toModel.toBits.toBitVec.isLt
  have htop : (@unpackSign Format.binary64 x.toModel.toBits.toBitVec).toNat =
      x.toBits.toNat / Nat.pow 2 63 := by
    unfold unpackSign
    rw [BitVec.toNat_cast, BitVec.extractLsb_toNat, Nat.shiftRight_eq_div_pow]
    exact Nat.mod_eq_of_lt hlt
  unfold signOf Sign.ofBitVec
  split
  · next hzero =>
    rw [← htop, hzero]
    rfl
  · next hone =>
    have hne : x.toBits.toNat / Nat.pow 2 63 ≠ 0 := fun h =>
      hone (BitVec.eq_of_toNat_eq (htop.trans h))
    rw [show x.toBits.toNat / Nat.pow 2 63 = 1 by omega]
    rfl

theorem toNat_one_append_places (x : Float) :
    (1#1 ++ places x).toNat = (places x).toNat + 2 ^ 52 := by
  rw [BitVec.toNat_append, ← Nat.shiftLeft_add_eq_or_of_lt (places x).isLt, Nat.add_comm]
  rfl

/-- The parts of a double out of its fields. -/
theorem ofFloat_eq (x : Float) : Parts.ofFloat x =
    if (biased x).toNat = 2047 then
      if (places x).toNat = 0 then .infinite (negates (signOf x)) else .notANumber
    else if (biased x).toNat = 0 then .finite (negates (signOf x)) (places x).toNat (-1074) false
    else .finite (negates (signOf x)) ((places x).toNat + 2 ^ 52) ((biased x).toNat - 1075)
      ((places x).toNat == 0 && (biased x).toNat > 1) := by
  rw [toNat_biased, toNat_places, negates_signOf]
  rfl

/-- What is compared of a double out of its fields. -/
theorem unpack_eq (x : Float) : x.toModel.unpack =
    if biased x = -1 then if places x = 0 then .infinity (signOf x) else .notANumber
    else if biased x = 0 then
      if h : places x = 0 then .zero (signOf x)
      else .finite (signOf x) (places x).toNat ((biased x).toNat - 1075 + 1)
        (Nat.pos_of_ne_zero fun h' => h (BitVec.eq_of_toNat_eq h'))
    else .finite (signOf x) (1#1 ++ places x).toNat ((biased x).toNat - 1075)
      (by rw [toNat_one_append_places]; omega) := rfl

/-! ## The order -/

/-- A mantissa and the smallest exponent that it allows. -/
structure Scaled (m : Nat) (q : Int) : Prop where
  lt : m < 2 ^ 53
  low : -1074 ≤ q
  normal : -1074 < q → 2 ^ 52 ≤ m

/-- What is compared and the parts belong to the same finite double. -/
inductive Denotes : UnpackedFloat → Parts → Prop
  | zero (s : Sign) (coarse : Bool) : Denotes (.zero s) (.finite (negates s) 0 (-1074) coarse)
  | finite (s : Sign) {m : Nat} {q : Int} (hm : 0 < m) (coarse : Bool) (scaled : Scaled m q) :
      Denotes (.finite s m q hm) (.finite (negates s) m q coarse)

theorem Denotes.of_eq (s : Sign) {m m' : Nat} {q q' : Int} (hm : 0 < m) (coarse : Bool)
    (scaled : Scaled m' q') (hm' : m = m') (hq : q = q') :
    Denotes (.finite s m q hm) (.finite (negates s) m' q' coarse) := by
  subst hm' hq
  exact .finite s hm coarse scaled

theorem denotes (hx : x.isFinite = true) : Denotes x.toModel.unpack (Parts.ofFloat x) := by
  change x.toModel.unpack.isFinite = true at hx
  rw [unpack_eq] at hx ⊢
  rw [ofFloat_eq]
  have hplaces := (places x).isLt
  by_cases hspecial : biased x = -1
  · rw [if_pos hspecial] at hx
    split at hx <;> cases hx
  have hbelow : (biased x).toNat ≠ 2047 := fun h => hspecial (BitVec.eq_of_toNat_eq h)
  rw [if_neg hspecial, if_neg hbelow]
  by_cases hsmall : biased x = 0
  · have hzero : (biased x).toNat = 0 := by rw [hsmall]; rfl
    rw [if_pos hsmall, if_pos hzero]
    by_cases hnone : places x = 0
    · rw [dif_pos hnone, hnone]
      exact .zero _ _
    · rw [dif_neg hnone]
      exact .of_eq _ _ _ ⟨by omega, by omega, by omega⟩ rfl (by omega)
  · have hpos : (biased x).toNat ≠ 0 := fun h => hsmall (BitVec.eq_of_toNat_eq h)
    rw [if_neg hsmall, if_neg hpos]
    exact .of_eq _ _ _ ⟨by omega, by omega, by omega⟩ (toNat_one_append_places x) rfl

namespace Scaled

variable {m m' : Nat} {q q' : Int}

/-- A larger exponent makes a larger number. -/
theorem lt_of_power_lt (h : Scaled m q) (h' : Scaled m' q') (hq : q < q') :
    (m : ℚ) * 2 ^ q < m' * 2 ^ q' := by
  have hm : (m : ℚ) < 2 ^ 53 := by exact_mod_cast h.lt
  have hm' : (2 ^ 52 : ℚ) ≤ m' := by exact_mod_cast h'.normal (h.low.trans_lt hq)
  have hpow : (2 : ℚ) ^ (q + 1) ≤ 2 ^ q' := zpow_le_zpow_right₀ one_le_two hq
  calc (m : ℚ) * 2 ^ q < 2 ^ 53 * 2 ^ q := by gcongr
    _ = 2 ^ 52 * 2 ^ (q + 1) := by rw [zpow_add_one₀ two_ne_zero]; ring
    _ ≤ m' * 2 ^ q' := by gcongr

/-- Sizes compare by exponent first. -/
theorem compare_eq_lt (h : Scaled m q) (h' : Scaled m' q') :
    (compare q q').then (compare m m') = .lt ↔ (m : ℚ) * 2 ^ q < m' * 2 ^ q' := by
  have hpow : (0 : ℚ) < 2 ^ q := by positivity
  rw [Ordering.then_eq_lt, compare_lt_iff_lt, compare_eq_iff_eq, compare_lt_iff_lt]
  rcases lt_trichotomy q q' with hq | rfl | hq
  · exact iff_of_true (.inl hq) (h.lt_of_power_lt h' hq)
  · rw [mul_lt_mul_iff_left₀ hpow, Nat.cast_lt]
    exact ⟨fun hm => (hm.resolve_left (lt_irrefl q)).2, fun hm => .inr ⟨rfl, hm⟩⟩
  · refine iff_of_false ?_ (h'.lt_of_power_lt h hq).not_gt
    rintro (hlt | ⟨heq, -⟩) <;> omega

end Scaled

/-- Comparing doubles compares the fractions. -/
theorem Denotes.lt_iff {u u' : UnpackedFloat} {p p' : Parts} (h : Denotes u p)
    (h' : Denotes u' p') : u.compare u' = some .lt ↔ p.value < p'.value := by
  have hpos : ∀ {m : Nat} {q : Int}, 0 < m → (0 : ℚ) < m * 2 ^ q := fun hm => by positivity
  have hneg : ∀ {m : Nat} {q : Int}, 0 < m → -((m : ℚ) * 2 ^ q) < 0 := fun hm =>
    neg_neg_of_pos (hpos hm)
  cases h with
  | zero s =>
    rw [value_zero]
    cases h' with
    | zero s' =>
      rw [value_zero]
      exact iff_of_false nofun (lt_irrefl 0)
    | finite s' hm' coarse' =>
      rw [value_finite]
      cases s' with
      | positive => exact iff_of_true rfl (hpos hm')
      | negative => exact iff_of_false nofun (hneg hm').not_gt
  | finite s hm coarse scaled =>
    rw [value_finite]
    cases h' with
    | zero s' =>
      rw [value_zero]
      cases s with
      | positive => exact iff_of_false nofun (hpos hm).not_gt
      | negative => exact iff_of_true rfl (hneg hm)
    | finite s' hm' coarse' scaled' =>
      rw [value_finite]
      cases s <;> cases s'
      case positive.positive => exact Option.some_inj.trans (scaled.compare_eq_lt scaled')
      case positive.negative => exact iff_of_false nofun ((hneg hm').trans (hpos hm)).not_gt
      case negative.positive => exact iff_of_true rfl ((hneg hm).trans (hpos hm'))
      case negative.negative =>
        refine Option.some_inj.trans ?_
        rw [Ordering.swap_then, Int.compare_swap, Nat.compare_swap]
        exact (scaled'.compare_eq_lt scaled).trans neg_lt_neg_iff.symm

theorem lt_iff_compare (x y : Float) :
    x < y ↔ x.toModel.unpack.compare y.toModel.unpack = some .lt :=
  decide_eq_true_iff.trans beq_iff_eq

/-- **The order of finite doubles is that of the fractions.** -/
theorem lt_iff_exact_lt (hx : x.isFinite = true) (hy : y.isFinite = true) :
    x < y ↔ exact x < exact y :=
  (lt_iff_compare x y).trans ((denotes hx).lt_iff (denotes hy))

theorem isFinite_of_between (hlow : 0.0 < x) (hhigh : x < 1.0) : x.isFinite = true := by
  have hzero : (0.0 : Float).toModel.unpack = .zero .positive := rfl
  have hone : (1.0 : Float).toModel.unpack = .finite .positive (2 ^ 52) (-52) (by decide) := rfl
  rw [lt_iff_compare, hzero] at hlow
  rw [lt_iff_compare, hone] at hhigh
  change x.toModel.unpack.isFinite = true
  cases hx : x.toModel.unpack with
  | notANumber =>
    rw [hx] at hlow
    cases hlow
  | infinity s =>
    rw [hx] at hlow hhigh
    cases s with
    | positive => cases hhigh
    | negative => cases hlow
  | zero | finite => rfl

end Decimal

/-- A grade is finite. -/
theorem Detection.isFinite_clamp (x : Float) : (Detection.clamp x).isFinite = true := by
  unfold Detection.clamp
  dsimp only
  split
  · split
    · next hhigh hlow => exact Decimal.isFinite_of_between hlow hhigh
    · rfl
  · rfl

end TweakEngine
