/-
# Coerced values are normal forms

What `RegistryValue.coerce` makes of a value is of the declared kind, and coercing it again,
typed or in the form that files hold, gives it back (`RegistryValue.coerce_again`).

A numeric kind of `w` bits takes the values that stand for an integer (`Datum.StandsFor`): integers,
truth values, integral doubles and the texts that spell one.  It accepts the integers from
`-2 ^ (w - 1)` up to `2 ^ w` and stores the number of `w` bits that is congruent to them.  Bytes
are given back by their text in base 64, and lines by their list.  `RegistryValue.coerce_normal`
puts this together.

A row of more than 4300 decimal digits is refused however small its number
(`RegistryValue.sample_long_row`).
-/

import Mathlib.Data.Int.ModEq
import TweakEngine.Proofs.DetectedPayloads
import TweakEngine.Proofs.DoubleOrder
import TweakEngine.Proofs.SpelledIntegers

namespace TweakEngine

/-! ## Values that stand for integers -/

/-- The integer that a loosely typed value stands for. -/
inductive Datum.StandsFor : Datum → Int → Prop
  | int (n : Int) : StandsFor (.int n) n
  | bool (b : Bool) : StandsFor (.bool b) (if b then 1 else 0)
  | float {x : Float} {n : Int} (hfinite : x.isFinite = true) (h : Decimal.exact x = n) :
    StandsFor (.float x) n
  | text {s : String} {n : Int} (h : Decimal.Spelled (Text.trimChars s.toList) n) :
    StandsFor (.text s) n

namespace Decimal

/-- A double with a mantissa is finite. -/
theorem isFinite_of_parts {x : Float} {negative coarse : Bool} {m : Nat} {q : Int}
    (h : Parts.ofFloat x = .finite negative m q coarse) : x.isFinite = true := by
  have hspecial : biased x ≠ -1 := by
    intro hbiased
    rw [ofFloat_eq, if_pos (by rw [hbiased]; rfl)] at h
    split at h <;> cases h
  change x.toModel.unpack.isFinite = true
  rw [unpack_eq, if_neg hspecial]
  by_cases hlow : biased x = 0
  · rw [if_pos hlow]
    by_cases hzero : places x = 0
    · rw [dif_pos hzero]
      rfl
    · rw [dif_neg hzero]
      rfl
  · rw [if_neg hlow]
    rfl

theorem Denotes.exists_parts {u : Float.Model.UnpackedFloat} {p : Parts} (h : Denotes u p) :
    ∃ negative m q coarse, p = .finite negative m q coarse := by
  cases h with
  | zero s coarse => exact ⟨_, _, _, _, rfl⟩
  | finite s hm coarse scaled => exact ⟨_, _, _, _, rfl⟩

/-- A fraction is an integer when its denominator divides its numerator. -/
theorem numerator_div_eq_iff {m : Nat} {q n : Int} :
    (numerator m q : ℚ) / denominator q = n ↔
      numerator m q % denominator q = 0 ∧ (numerator m q : Int) / denominator q = n := by
  have hpos : 0 < denominator q := Nat.two_pow_pos _
  have hden : (denominator q : ℚ) ≠ 0 := Nat.cast_ne_zero.mpr hpos.ne'
  have hdenInt : (denominator q : Int) ≠ 0 := Int.natCast_ne_zero.mpr hpos.ne'
  rw [div_eq_iff hden]
  constructor
  · intro h
    have hint : (numerator m q : Int) = n * denominator q := by exact_mod_cast h
    have hmod : ((numerator m q % denominator q : Nat) : Int) = 0 := by
      rw [Int.natCast_emod, hint, Int.mul_emod_left]
    exact ⟨Int.natCast_eq_zero.mp hmod, by rw [hint, Int.mul_ediv_cancel _ hdenInt]⟩
  · rintro ⟨hmod, rfl⟩
    have hdvd : (denominator q : Int) ∣ numerator m q :=
      Int.natCast_dvd_natCast.mpr (Nat.dvd_of_mod_eq_zero hmod)
    exact_mod_cast (Int.ediv_mul_cancel hdvd).symm

/-- **Integral doubles.**  An integer is found in a finite double that it equals. -/
theorem integral?_float_iff {x : Float} {n : Int} :
    (Datum.float x).integral? = some n ↔ x.isFinite = true ∧ exact x = n := by
  by_cases hfinite : x.isFinite = true
  · obtain ⟨negative, m, q, coarse, hparts⟩ := (denotes hfinite).exists_parts
    rw [Datum.integral?, isIntegral, truncate?, exact, hparts, and_iff_right hfinite, Parts.value]
    dsimp only
    have hsize : ∀ i : Int, (numerator m q : ℚ) / denominator q = i ↔
        numerator m q % denominator q = 0 ∧ (numerator m q : Int) / denominator q = i :=
      fun i => numerator_div_eq_iff
    cases negative with
    | false =>
      rw [if_neg Bool.false_ne_true, if_neg Bool.false_ne_true, hsize]
      simp
    | true =>
      rw [if_pos rfl, if_pos rfl, neg_eq_iff_eq_neg, ← Int.cast_neg, hsize]
      simp [neg_eq_iff_eq_neg]
  · refine iff_of_false (fun h => hfinite ?_) fun h => hfinite h.1
    rw [Datum.integral?, isIntegral] at h
    cases hparts : Parts.ofFloat x with
    | finite => exact isFinite_of_parts hparts
    | _ => rw [hparts] at h; cases h

end Decimal

namespace RegistryValue

variable {raw : Datum} {k : ValueKind} {v : RegistryValue} {n : Int} {w : Nat}

/-- **Integers.**  Coercion finds the integer that a value stands for. -/
theorem integerOf_eq_ok_iff : integerOf raw k = .ok n ↔ raw.StandsFor n := by
  have hother : (∀ s, raw ≠ .text s) → (integerOf raw k = .ok n ↔ raw.integral? = some n) := by
    intro htext
    rw [integerOf.eq_2 raw k htext]
    cases raw.integral? <;> simp
  cases raw with
  | text s =>
    rw [integerOf]
    constructor
    · intro h
      split at h
      · next m hm =>
        cases h
        exact .text (readNumeral_eq_ok_iff.mp hm)
      · cases h
    · rintro ⟨⟩
      rename_i h
      rw [readNumeral_eq_ok_iff.mpr h]
  | int m =>
    rw [hother (by rintro s ⟨⟩)]
    constructor
    · rintro ⟨⟩
      exact .int _
    · rintro ⟨⟩
      rfl
  | bool b =>
    rw [hother (by rintro s ⟨⟩)]
    constructor
    · rintro ⟨⟩
      exact .bool _
    · rintro ⟨⟩
      rfl
  | float x =>
    rw [hother (by rintro s ⟨⟩), Decimal.integral?_float_iff]
    constructor
    · rintro ⟨hfinite, h⟩
      exact .float hfinite h
    · rintro ⟨⟩
      exact ⟨by assumption, by assumption⟩
  | _ =>
    rw [hother (by rintro s ⟨⟩)]
    constructor
    · rintro ⟨⟩
    · rintro ⟨⟩

/-! ## Numbers of a width -/

theorem fits_iff : fits w n = true ↔ -2 ^ (w - 1) ≤ n ∧ n < 2 ^ w := by
  have hpow : ∀ e, (Nat.pow 2 e : Int) = 2 ^ e := Int.natCast_pow 2
  rw [fits, Bool.and_eq_true, decide_eq_true_eq, decide_eq_true_eq, hpow, hpow]

/-- A word is the number of its width that is congruent to an integer. -/
theorem toNat_ofInt_eq_iff (w : Nat) (n m : Int) :
    ((BitVec.ofInt w n).toNat : Int) = m ↔ 0 ≤ m ∧ m < 2 ^ w ∧ m ≡ n [ZMOD 2 ^ w] := by
  have hpos : (0 : Int) < 2 ^ w := Int.pow_pos (by decide)
  have hpow : ((2 ^ w : Nat) : Int) = 2 ^ w := Int.natCast_pow 2 w
  rw [BitVec.toNat_ofInt, hpow, Int.toNat_of_nonneg (Int.emod_nonneg n hpos.ne')]
  constructor
  · rintro rfl
    exact ⟨Int.emod_nonneg n hpos.ne', Int.emod_lt_of_pos n hpos, Int.mod_modEq n _⟩
  · rintro ⟨hnonneg, hlt, hmod⟩
    rw [← hmod, Int.emod_eq_of_lt hnonneg hlt]

/-- Both numeric kinds check an integer against their width and store it in a word of this
width. -/
theorem coercePlain_numeric (hw : k.width? = some w) :
    ∃ make : BitVec w → RegistryValue, (∀ b, (make b).payload = .int b.toNat) ∧
      ∀ raw, coercePlain raw k = integerOf raw k >>= fun n =>
        if fits w n then .ok (make (BitVec.ofInt w n)) else .error (tooWide n k) := by
  cases k with
  | dword =>
    obtain rfl := Option.some.inj hw
    exact ⟨.dword, fun _ => rfl, fun _ => rfl⟩
  | qword =>
    obtain rfl := Option.some.inj hw
    exact ⟨.qword, fun _ => rfl, fun _ => rfl⟩
  | _ => cases hw

/-- **Numbers.**  A numeric kind accepts what stands for an integer in its range, and stores the
number of its width that is congruent to it. -/
theorem coercePlain_number (hw : k.width? = some w) (hn : raw.StandsFor n) :
    ((∃ v, coercePlain raw k = .ok v) ↔ -2 ^ (w - 1) ≤ n ∧ n < 2 ^ w) ∧
      ∀ v, coercePlain raw k = .ok v →
        ∀ m, v.payload = .int m ↔ 0 ≤ m ∧ m < 2 ^ w ∧ m ≡ n [ZMOD 2 ^ w] := by
  obtain ⟨make, hmake, hcoerce⟩ := coercePlain_numeric hw
  rw [← fits_iff, hcoerce, integerOf_eq_ok_iff.mpr hn, ok_bind]
  cases hfits : fits w n with
  | false => exact ⟨iff_of_false (fun ⟨_, h⟩ => nomatch h) Bool.false_ne_true, nofun⟩
  | true =>
    refine ⟨iff_of_true ⟨_, rfl⟩ rfl, fun v hv m => ?_⟩
    obtain rfl := Except.ok.inj hv
    rw [hmake, Datum.int.injEq, toNat_ofInt_eq_iff]

/-- A numeric kind accepts nothing else. -/
theorem standsFor_of_coercePlain (hw : k.width? = some w) (h : coercePlain raw k = .ok v) :
    ∃ n, raw.StandsFor n := by
  obtain ⟨make, -, hcoerce⟩ := coercePlain_numeric hw
  rw [hcoerce] at h
  obtain ⟨n, hn, -⟩ := ok_of_bind h
  exact ⟨n, integerOf_eq_ok_iff.mp hn⟩

/-! ## Coercing again -/

/-- What is coerced is of the declared kind. -/
theorem kind_of_coercePlain (h : coercePlain raw k = .ok v) : v.kind = k := by
  cases k with
  | dword =>
    obtain ⟨n, -, rfl⟩ := dword_of_coerce h
    rfl
  | qword =>
    obtain ⟨n, -, rfl⟩ := qword_of_coerce h
    rfl
  | string | expandString =>
    cases raw with
    | list | tuple | object | bytes => cases h
    | _ => rw [← Except.ok.inj h]; rfl
  | multiString =>
    cases raw with
    | text | list | tuple => rw [← Except.ok.inj h]; rfl
    | _ => cases h
  | binary =>
    cases raw with
    | bytes => rw [← Except.ok.inj h]; rfl
    | text s =>
      rw [coercePlain] at h
      split at h
      · rw [← Except.ok.inj h]; rfl
      · cases h
    | list items | tuple items =>
      obtain ⟨bytes, -, h⟩ := ok_of_bind h
      rw [← Except.ok.inj h]; rfl
    | _ => cases h

/-- A value is made of its payload. -/
theorem coercePlain_payload (v : RegistryValue) : coercePlain v.payload v.kind = .ok v := by
  cases v with
  | string | expandString | binary => rfl
  | dword n => exact coercePlain_dword n
  | qword n => exact coercePlain_qword n
  | multiString lines => rw [payload, kind, coercePlain, map_display_texts]

/-- **Coerced values are normal forms**, typed and in files. -/
theorem coerce_again (h : coerce raw k = .ok (some v)) :
    v.kind = k ∧ coerce (.registry v) k = .ok (some v) ∧ coerce v.toJson k = .ok (some v) := by
  obtain rfl := kind_of_coercePlain (coerce_ok h)
  refine ⟨rfl, ?_, coerce_toJson v⟩
  rw [coerce, coercePlain_payload]
  rfl

theorem coerce_eq_some_iff (hraw : raw ≠ .null) :
    coerce raw k = .ok (some v) ↔ coercePlain raw.untyped k = .ok v := by
  refine ⟨coerce_ok, fun h => ?_⟩
  have hcoerce : coerce raw k = some <$> coercePlain raw.untyped k := by
    cases raw with
    | null => exact absurd rfl hraw
    | _ => rfl
  rw [hcoerce, h]
  rfl

/-- **Coerced values.**  They are normal forms, a numeric kind accepts the integers of its range and
stores the number of its width, and nothing is lost of bytes and lines in files. -/
theorem coerce_normal :
    (∀ (raw : Datum) (k : ValueKind) (v : RegistryValue), coerce raw k = .ok (some v) →
      v.kind = k ∧ coerce (.registry v) k = .ok (some v) ∧ coerce v.toJson k = .ok (some v)) ∧
    (∀ (raw : Datum) (k : ValueKind) (w : Nat), k.width? = some w →
      (∀ n, raw.untyped.StandsFor n →
        ((∃ v, coerce raw k = .ok (some v)) ↔ -2 ^ (w - 1) ≤ n ∧ n < 2 ^ w) ∧
        ∀ v, coerce raw k = .ok (some v) →
          ∀ m, v.payload = .int m ↔ 0 ≤ m ∧ m < 2 ^ w ∧ m ≡ n [ZMOD 2 ^ w]) ∧
      ∀ v, coerce raw k = .ok (some v) → ∃ n, raw.untyped.StandsFor n) ∧
    (∀ bytes, coerce (.text (Base64.encode bytes)) .binary = .ok (some (.binary bytes))) ∧
    ∀ lines : List String,
      coerce (.list (lines.map .text)) .multiString = .ok (some (.multiString lines)) := by
  refine ⟨fun raw k v => coerce_again, fun raw k w hw => ⟨fun n hn => ?_, fun v h => ?_⟩,
    fun bytes => coerce_toJson (.binary bytes), fun lines => coerce_toJson (.multiString lines)⟩
  · have hraw : raw ≠ .null := by
      rintro rfl
      cases hn
    simp only [coerce_eq_some_iff hraw]
    exact coercePlain_number hw hn
  · exact standsFor_of_coercePlain hw (coerce_ok h)

/-- A sign, blanks and a gap. -/
theorem sample_coerced :
    ValueKind.dword.width? = some 32 ∧ Datum.StandsFor (.text " -1_0\n") (-10) ∧
      coerce (.text " -1_0\n") .dword = .ok (some (.dword 0xFFFFFFF6)) ∧
      coerce (.registry (.dword 0xFFFFFFF6)) .dword = .ok (some (.dword 0xFFFFFFF6)) ∧
      coerce (.int 0xFFFFFFF6) .dword = .ok (some (.dword 0xFFFFFFF6)) ∧
      (0xFFFFFFF6 : Int) ≡ -10 [ZMOD 2 ^ 32] := by
  have hstands : Datum.StandsFor (.text " -1_0\n") (-10) := by
    refine .text ⟨10, [1, 0], ?_, by decide⟩
    exact .minus (.gap rfl (.last rfl))
  have hcoerce : coerce (.text " -1_0\n") .dword = .ok (some (.dword 0xFFFFFFF6)) := by
    decide +kernel
  obtain ⟨hagain, hnumber, -⟩ := coerce_normal
  obtain ⟨-, htyped, hjson⟩ := hagain _ _ _ hcoerce
  have hpayload := (((hnumber (.text " -1_0\n") .dword 32 rfl).1 _ hstands).2 _ hcoerce
    0xFFFFFFF6).mp rfl
  exact ⟨rfl, hstands, hcoerce, htyped, hjson, hpayload.2.2⟩

end RegistryValue

/-! ## Long rows -/

namespace Decimal

/-- Zeros in front of a one. -/
def paddedOne (zeros : Nat) : List Char := List.replicate zeros '0' ++ ['1']

theorem row_paddedOne (zeros : Nat) :
    Row 10 (paddedOne zeros) (List.replicate zeros 0 ++ [1]) := by
  induction zeros with
  | zero => exact .last rfl
  | succ zeros ih => exact .next rfl ih

/-- Zeros in front do not count. -/
theorem spells_paddedOne (zeros : Nat) :
    Spells (paddedOne zeros) 10 (List.replicate zeros 0 ++ [1]) 1 := by
  have hvalue : Nat.ofDigits 10 (List.replicate zeros 0 ++ [1]).reverse = 1 := by
    rw [List.reverse_append, List.reverse_replicate, List.reverse_singleton,
      Nat.ofDigits_append_replicate_zero, Nat.ofDigits_singleton]
  have hspells := Spells.plain (row_paddedOne zeros)
  rwa [hvalue] at hspells

theorem trimChars_paddedOne (zeros : Nat) :
    Text.trimChars (paddedOne zeros) = paddedOne zeros := by
  refine Text.trimChars_of_shown fun c hc => ?_
  rw [paddedOne, List.mem_append, List.mem_replicate, List.mem_singleton] at hc
  rcases hc with ⟨-, rfl⟩ | rfl <;> rfl

end Decimal

namespace RegistryValue

/-- A long row of decimal digits is refused, whatever its number. -/
theorem coerce_paddedOne {zeros : Nat} (h : Decimal.maxDigits ≤ zeros) (v : RegistryValue) :
    coerce (.text (String.ofList (Decimal.paddedOne zeros))) .dword ≠ .ok (some v) := by
  intro hcoerce
  obtain ⟨n, hn⟩ := standsFor_of_coercePlain rfl (coerce_ok hcoerce)
  cases hn with
  | text hspelled =>
    rw [String.toList_ofList, Decimal.trimChars_paddedOne] at hspelled
    have hlength := (Decimal.row_paddedOne zeros).length_le_of_spelled hspelled
    rw [List.length_append, List.length_replicate] at hlength
    exact absurd h (Nat.not_le.mpr hlength)

theorem sample_long_row :
    Decimal.Spells (Text.trimChars (String.ofList (Decimal.paddedOne 4300)).toList) 10
        (List.replicate 4300 0 ++ [1]) 1 ∧
      -2 ^ (32 - 1) ≤ (1 : Int) ∧ (1 : Int) < 2 ^ 32 ∧
      ∀ v, coerce (.text (String.ofList (Decimal.paddedOne 4300))) .dword ≠ .ok (some v) := by
  refine ⟨?_, by decide, by decide, coerce_paddedOne (Nat.le_refl _)⟩
  rw [String.toList_ofList, Decimal.trimChars_paddedOne]
  exact Decimal.spells_paddedOne 4300

end RegistryValue
end TweakEngine
