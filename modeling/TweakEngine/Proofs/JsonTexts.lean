/-
# Reading written texts and integers

A text that was written with its escapes is read back (`textFrom_flatMap`), and so is an
integer that is not too long (`number_intText`), whatever may follow a value in a written
text (`Ends`).
-/

import TweakEngine.Json.Reader
import TweakEngine.Json.Writer

namespace TweakEngine

theorem Text.join_cons {sep part : String} {parts : List String} (h : parts ≠ []) :
    (Text.join sep (part :: parts)).toList =
      part.toList ++ (sep.toList ++ (Text.join sep parts).toList) := by
  rw [Text.join, String.intercalate_cons_of_ne_nil h]
  simp [Text.join]

namespace Json

/-! ## Texts -/

theorem hexValue?_hexDigit : ∀ n : Fin 16, Encoding.hexValue? (Text.hexDigit n) = some n.val := by
  decide

theorem hex4?_hexDigits {n : Nat} (h : n < 0x10000) :
    ∃ a b c d, Text.hexDigits 4 n = [a, b, c, d] ∧ hex4? a b c d = some n := by
  refine ⟨_, _, _, _, rfl, ?_⟩
  have digit : ∀ k < 16, Encoding.hexValue? (Text.hexDigit k) = some k := fun k hk =>
    hexValue?_hexDigit ⟨k, hk⟩
  simp only [hex4?, digit _ (Nat.mod_lt _ (by decide : 0 < 16)), Option.bind_eq_bind,
    Option.bind_some, Option.pure_def, Option.some.injEq]
  omega

/-- A character is never half of a surrogate pair. -/
theorem toNat_not_surrogate (c : Char) : ¬(0xD800 ≤ c.toNat ∧ c.toNat < 0xE000) := by
  have h := c.valid
  have : c.toNat = c.val.toNat := rfl
  rcases h with h | ⟨h, -⟩ <;> omega

theorem ofUnit_toNat (c : Char) : ofUnit c.toNat = c := by
  rw [ofUnit, if_neg (toNat_not_surrogate c), Char.ofNat_toNat]


variable {start fuel p : Nat} {acc : List Char} {e : Char} {rest : List Char}

/-- Reading an escape of four hexadecimal digits that stands for no surrogate. -/
theorem textFrom_unicodeEscape (c : Char) (h : c.toNat < 0x10000) :
    textFrom start (fuel + 1) p acc (unicodeEscape c.toNat ++ e :: rest) =
      textFrom start fuel (p + 6) (c :: acc) (e :: rest) := by
  obtain ⟨a, b, x, y, hdigits, hhex⟩ := hex4?_hexDigits h
  have hhigh : ¬(0xD800 ≤ c.toNat ∧ c.toNat < 0xDC00) := fun hc =>
    toNat_not_surrogate c ⟨hc.1, by omega⟩
  simp only [unicodeEscape, hdigits, List.cons_append, List.nil_append]
  rw [textFrom, if_neg (by decide), if_neg (by decide), if_neg (by decide)]
  simp only [hhex]
  split
  · rw [if_neg hhigh, ofUnit_toNat]
  · rw [ofUnit_toNat]

theorem textFrom_surrogates (c : Char) (h : 0x10000 ≤ c.toNat) :
    textFrom start (fuel + 1) p acc (unicodeEscape (0xD800 + (c.toNat - 0x10000) / 1024) ++
        unicodeEscape (0xDC00 + (c.toNat - 0x10000) % 1024) ++ e :: rest) =
      textFrom start fuel (p + 12) (c :: acc) (e :: rest) := by
  have hc : c.toNat < 0x110000 := by
    have h := c.valid
    have : c.toNat = c.val.toNat := rfl
    rcases h with h | ⟨-, h⟩ <;> omega
  obtain ⟨a, b, x, y, hd, hh⟩ :=
    hex4?_hexDigits (n := 0xD800 + (c.toNat - 0x10000) / 1024) (by omega)
  obtain ⟨a', b', x', y', hd', hh'⟩ :=
    hex4?_hexDigits (n := 0xDC00 + (c.toNat - 0x10000) % 1024) (by omega)
  have heq : 0x10000 + (0xD800 + (c.toNat - 0x10000) / 1024 - 0xD800) * 1024 +
      (0xDC00 + (c.toNat - 0x10000) % 1024 - 0xDC00) = c.toNat := by omega
  simp only [unicodeEscape, hd, hd', List.cons_append, List.nil_append]
  rw [textFrom, if_neg (by decide), if_neg (by decide), if_neg (by decide)]
  simp only [hh, hh']
  rw [if_pos (by omega), if_pos (by omega), heq, Char.ofNat_toNat]

/-- Reading one written character. -/
theorem textFrom_escapeChar (start fuel p : Nat) (acc : List Char) (c e : Char) (rest : List Char) :
    ∃ p', textFrom start (fuel + 1) p acc (escapeChar c ++ e :: rest) =
      textFrom start fuel p' (c :: acc) (e :: rest) := by
  unfold escapeChar
  dsimp only
  split
  · next h => subst h; exact ⟨_, rfl⟩
  split
  · next h => subst h; exact ⟨_, rfl⟩
  split
  · next h => subst h; exact ⟨_, rfl⟩
  split
  · next h => subst h; exact ⟨_, rfl⟩
  split
  · next h => subst h; exact ⟨_, rfl⟩
  split
  · next h =>
    obtain rfl : c = Char.ofNat 8 := by rw [← h, Char.ofNat_toNat]
    exact ⟨_, rfl⟩
  split
  · next h =>
    obtain rfl : c = Char.ofNat 12 := by rw [← h, Char.ofNat_toNat]
    exact ⟨_, rfl⟩
  split
  · next hq hb _ _ _ _ _ hc =>
    refine ⟨p + 1, ?_⟩
    rw [List.cons_append, List.nil_append]
    conv => lhs; unfold textFrom
    rw [if_neg hq, if_neg (by omega), if_pos hb]
  split
  · next h => exact ⟨_, textFrom_unicodeEscape c h⟩
  · next h => exact ⟨_, textFrom_surrogates c (by omega)⟩

/-- Reading written characters up to the closing quote. -/
theorem textFrom_flatMap (start : Nat) (rest cs : List Char) : ∀ (fuel p : Nat) (acc : List Char),
    cs.length < fuel → ∃ p', textFrom start fuel p acc (cs.flatMap escapeChar ++ '"' :: rest) =
      .ok (String.ofList (acc.reverse ++ cs), p', rest) := by
  induction cs with
  | nil =>
    intro fuel p acc h
    obtain ⟨fuel, rfl⟩ := Nat.exists_eq_add_one.mpr h
    exact ⟨p + 1, by simp [textFrom]⟩
  | cons c cs ih =>
    intro fuel p acc h
    obtain ⟨fuel, rfl⟩ := Nat.exists_eq_add_one.mpr (Nat.zero_lt_of_lt h)
    -- what follows an escape is never the end of the text
    obtain ⟨e, more, hmore⟩ : ∃ e more, cs.flatMap escapeChar ++ '"' :: rest = e :: more := by
      cases hcs : cs.flatMap escapeChar with
      | nil => exact ⟨_, _, rfl⟩
      | cons e more => exact ⟨_, _, rfl⟩
    obtain ⟨p₁, h₁⟩ := textFrom_escapeChar start fuel p acc c e more
    obtain ⟨p₂, h₂⟩ := ih fuel p₁ (c :: acc)
      (by rw [List.length_cons] at h; omega)
    refine ⟨p₂, ?_⟩
    rw [List.flatMap_cons, List.append_assoc, hmore, h₁, ← hmore, h₂, List.reverse_cons,
      List.append_assoc]
    rfl

/-! ## Integers -/

/-- What may follow a value inside a written text. -/
def Ends (rest : List Char) : Prop :=
  ∀ c ∈ rest.head?, c = ',' ∨ c = '\n' ∨ c = ']' ∨ c = '\x7d'

theorem Ends.nil : Ends [] := nofun

theorem Ends.cons {c : Char} (h : c = ',' ∨ c = '\n' ∨ c = ']' ∨ c = '\x7d') (cs : List Char) :
    Ends (c :: cs) := fun _ hc => Option.some.inj hc ▸ h

theorem natChars_digit {n : Nat} : ∀ c ∈ Decimal.natChars n, c.isDigit = true := fun _ hc =>
  Nat.isDigit_of_mem_toDigits (by decide) (by decide) hc

theorem digitsValue_natChars (n : Nat) : digitsValue (Decimal.natChars n) = n := by
  have h : ∀ ds, digitsValue ds = Nat.ofDigitChars 10 ds 0 := fun ds => by
    rw [digitsValue, Nat.ofDigitChars_eq_foldl]
    congr 1
    funext n d
    rw [Nat.mul_comm]
    rfl
  rw [h, Decimal.natChars, Nat.ofDigitChars_ten_toDigits]

/-- Only zero is written with a leading zero. -/
theorem natChars_zero_head {n : Nat} {cs : List Char} (h : Decimal.natChars n = '0' :: cs) :
    cs = [] := by
  have hdigits : ∀ m, 0 < m → (Nat.toDigits 10 m).head? ≠ some '0' := by
    intro m
    induction m using Nat.base_induction 10 (by decide) with
    | single m hm =>
      intro hpos
      rw [Nat.toDigits_of_lt_base hm, List.head?_cons]
      have : ∀ k : Fin 10, 0 < k.val → some (Nat.digitChar k.val) ≠ some '0' := by decide
      exact this ⟨m, hm⟩ hpos
    | digit m k hk hm ih =>
      intro _
      rw [← Nat.toDigits_append_toDigits (by decide) hm hk, List.head?_append]
      cases hd : (Nat.toDigits 10 m).head? with
      | none => exact absurd (List.head?_eq_none_iff.mp hd) Nat.toDigits_ne_nil
      | some c => rw [Option.some_or]; exact hd ▸ ih hm
  rcases Nat.eq_zero_or_pos n with rfl | hpos
  · rw [Decimal.natChars, Nat.toDigits_zero] at h
    exact (List.cons.inj h).2.symm
  · refine absurd ?_ (hdigits n hpos)
    rw [show Nat.toDigits 10 n = '0' :: cs from h, List.head?_cons]

theorem spanDigits_natChars {n : Nat} {rest : List Char} (h : Ends rest) :
    spanDigits (Decimal.natChars n ++ rest) = (Decimal.natChars n, rest) := by
  have hrest : rest.takeWhile Char.isDigit = [] ∧ rest.dropWhile Char.isDigit = rest := by
    cases rest with
    | nil => exact ⟨rfl, rfl⟩
    | cons c cs =>
      have hc : c.isDigit = false := by
        rcases h c rfl with rfl | rfl | rfl | rfl <;> rfl
      simp [hc]
  rw [spanDigits, List.takeWhile_append_of_pos natChars_digit,
    List.dropWhile_append_of_pos natChars_digit, hrest.1, hrest.2, List.append_nil]

theorem takePlaces_ends {rest : List Char} (h : Ends rest) : takePlaces rest = (none, rest) := by
  cases rest with
  | nil => rfl
  | cons c cs => rcases h c rfl with rfl | rfl | rfl | rfl <;> rfl

theorem takeExponent_ends {rest : List Char} (h : Ends rest) : takeExponent rest = (none, rest) := by
  cases rest with
  | nil => rfl
  | cons c cs => rcases h c rfl with rfl | rfl | rfl | rfl <;> rfl

/-- Reading the digits of a natural number and what follows them. -/
theorem number_natChars {n : Nat} (hn : (Decimal.natChars n).length ≤ Decimal.maxDigits)
    {rest : List Char} (h : Ends rest) (p : Nat) :
    (∃ p', number p (Decimal.natChars n ++ rest) = .ok (.int n, p', rest)) ∧
      ∃ p', number p ('-' :: (Decimal.natChars n ++ rest)) = .ok (.int (-n), p', rest) := by
  obtain ⟨c, cs, hcs⟩ := List.exists_cons_of_ne_nil (l := Decimal.natChars n) Nat.toDigits_ne_nil
  have hc : c.isDigit = true := natChars_digit (n := n) c (hcs ▸ List.mem_cons_self)
  have hminus : c ≠ '-' := fun e => by rw [e] at hc; cases hc
  have hlong : ¬Decimal.maxDigits < (Decimal.natChars n).length := Nat.not_lt.mpr hn
  have hspan := spanDigits_natChars (n := n) h
  have hvalue := digitsValue_natChars n
  rw [hcs] at hspan hvalue
  rw [hcs, List.length_cons] at hlong
  by_cases hzero : c = '0'
  · subst hzero
    obtain rfl := natChars_zero_head hcs
    rw [hcs]
    simp [number, takePlaces_ends h, takeExponent_ends h, hvalue, Decimal.maxDigits]
  · rw [hcs]
    simp only [List.cons_append] at hspan ⊢
    simp [number, hminus, hzero, hspan, takePlaces_ends h, takeExponent_ends h, hvalue, hlong]

/-- Reading a written integer. -/
theorem number_intText {n : Int} (hn : (Decimal.natChars n.natAbs).length ≤ Decimal.maxDigits)
    {rest : List Char} (h : Ends rest) (p : Nat) :
    ∃ p', number p ((Decimal.intText n).toList ++ rest) = .ok (.int n, p', rest) := by
  obtain ⟨hpos, hneg⟩ := number_natChars hn h p
  unfold Decimal.intText
  split
  · next hlt =>
    rw [show -(n.natAbs : Int) = n by omega] at hneg
    rw [String.toList_ofList, List.cons_append]
    exact hneg
  · next hge =>
    rw [show (n.natAbs : Int) = n by omega] at hpos
    rw [String.toList_ofList]
    exact hpos

end Json
end TweakEngine
