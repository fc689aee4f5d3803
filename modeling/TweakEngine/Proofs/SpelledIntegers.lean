/-
# Integers in texts

`RegistryValue.readNumeral` scans a text for an integer: a sign, the prefix of base sixteen, digits
one by one, an underscore that must come between two of them.  What it accepts is spelled by a
grammar (`Decimal.Spells`): rows of digits, and in front of them a sign or `0x`.  The number is
that of the digits in their base.  `RegistryValue.readNumeral_eq_ok_iff` says that the scanner
accepts what the grammar spells, except that a row of base ten may have 4300 digits at most.
-/

import Mathlib.Data.Nat.Digits.Defs
import TweakEngine.Proofs.CaptureForms

namespace TweakEngine
namespace Decimal

/-! ## Rows of digits -/

/-- Digits of a base, with at most one underscore between two of them. -/
inductive Row (base : Nat) : List Char → List Nat → Prop
  | last {c : Char} {d : Nat} (hc : digitIn? base c = some d) : Row base [c] [d]
  | next {c : Char} {d : Nat} {cs : List Char} {ds : List Nat} (hc : digitIn? base c = some d)
    (hcs : Row base cs ds) : Row base (c :: cs) (d :: ds)
  | gap {c : Char} {d : Nat} {cs : List Char} {ds : List Nat} (hc : digitIn? base c = some d)
    (hcs : Row base cs ds) : Row base (c :: '_' :: cs) (d :: ds)

variable {base : Nat} {cs : List Char} {ds : List Nat}

theorem ne_underscore {c : Char} {d : Nat} (hc : digitIn? base c = some d) : c ≠ '_' := by
  rintro rfl
  cases hc

/-- A row begins with a digit. -/
theorem Row.head {c : Char} (h : Row base (c :: cs) ds) : ∃ d, digitIn? base c = some d := by
  cases h with
  | last hc => exact ⟨_, hc⟩
  | next hc => exact ⟨_, hc⟩
  | gap hc => exact ⟨_, hc⟩

/-- The digits of a row are its characters but the underscores. -/
theorem Row.length_filter (h : Row base cs ds) : (cs.filter (· ≠ '_')).length = ds.length := by
  induction h with
  | last hc => simp [ne_underscore hc]
  | next hc _ ih => simpa [ne_underscore hc] using ih
  | gap hc _ ih => simpa [ne_underscore hc] using ih

/-- A row is scanned to its end. -/
theorem Row.digitsValue_eq (h : Row base cs ds) (after : Bool) (acc : Nat) :
    digitsValue base after acc cs = some (ds.foldl (fun n d => n * base + d) acc) := by
  induction h generalizing after acc with
  | last hc => simp [digitsValue, ne_underscore hc, hc]
  | next hc _ ih => simp [digitsValue, ne_underscore hc, hc, ih]
  | gap hc _ ih => simp [digitsValue, ne_underscore hc, hc, ih]

/-- What is scanned after a digit is nothing or a row, perhaps after an underscore; at first it
is a row. -/
theorem exists_row : ∀ {cs : List Char} {after : Bool} {acc n : Nat},
    digitsValue base after acc cs = some n →
      (after = true ∧ cs = [] ∧ n = acc) ∨
      ∃ ds, (Row base cs ds ∨ after = true ∧ ∃ rest, cs = '_' :: rest ∧ Row base rest ds) ∧
        n = ds.foldl (fun n d => n * base + d) acc
  | [], after, acc, n, h => by
    cases after with
    | false => cases h
    | true => exact .inl ⟨rfl, rfl, (Option.some.inj h).symm⟩
  | c :: cs, after, acc, n, h => by
    rw [digitsValue] at h
    by_cases hc : c = '_'
    · subst hc
      rw [if_pos rfl] at h
      cases after with
      | false => cases h
      | true =>
        obtain ⟨⟨⟩, -⟩ | ⟨ds, hrow | ⟨⟨⟩, -⟩, hn⟩ := exists_row h
        exact .inr ⟨ds, .inr ⟨rfl, cs, rfl, hrow⟩, hn⟩
    · rw [if_neg hc] at h
      cases hd : digitIn? base c with
      | none => rw [hd] at h; cases h
      | some d =>
        rw [hd] at h
        obtain ⟨-, rfl, hn⟩ | ⟨ds, hrow | ⟨-, rest, rfl, hrow⟩, hn⟩ := exists_row h
        · exact .inr ⟨[d], .inl (.last hd), hn⟩
        · exact .inr ⟨d :: ds, .inl (.next hd hrow), hn⟩
        · exact .inr ⟨d :: ds, .inl (.gap hd hrow), hn⟩

/-- **Rows.**  The scanner accepts rows of digits and gives their number. -/
theorem digitsValue_eq_some_iff {n : Nat} : digitsValue base false 0 cs = some n ↔
    ∃ ds, Row base cs ds ∧ n = Nat.ofDigits base ds.reverse := by
  have hnumber : ∀ ds : List Nat,
      ds.foldl (fun n d => n * base + d) 0 = Nat.ofDigits base ds.reverse := by
    intro ds
    rw [Nat.ofDigits_eq_foldr, List.foldr_reverse]
    simp only [Nat.cast_id, Nat.mul_comm, Nat.add_comm]
  constructor
  · intro h
    obtain ⟨⟨⟩, -⟩ | ⟨ds, hrow | ⟨⟨⟩, -⟩, hn⟩ := exists_row h
    exact ⟨ds, hrow, hn.trans (hnumber ds)⟩
  · rintro ⟨ds, hrow, rfl⟩
    rw [hrow.digitsValue_eq, hnumber]

/-! ## Signs and prefixes -/

/-- The texts for integers: the characters, the base, its digits and the integer.  A row of base
ten may have a sign, a row of base sixteen comes after `0x` and perhaps an underscore. -/
inductive Spells : List Char → Nat → List Nat → Int → Prop
  | plain {cs : List Char} {ds : List Nat} (h : Row 10 cs ds) :
    Spells cs 10 ds (Nat.ofDigits 10 ds.reverse : Nat)
  | plus {cs : List Char} {ds : List Nat} (h : Row 10 cs ds) :
    Spells ('+' :: cs) 10 ds (Nat.ofDigits 10 ds.reverse : Nat)
  | minus {cs : List Char} {ds : List Nat} (h : Row 10 cs ds) :
    Spells ('-' :: cs) 10 ds (-(Nat.ofDigits 10 ds.reverse : Nat))
  | hex {x : Char} {cs : List Char} {ds : List Nat} (hx : x = 'x' ∨ x = 'X') (h : Row 16 cs ds) :
    Spells ('0' :: x :: cs) 16 ds (Nat.ofDigits 16 ds.reverse : Nat)
  | hexGap {x : Char} {cs : List Char} {ds : List Nat} (hx : x = 'x' ∨ x = 'X')
    (h : Row 16 cs ds) :
    Spells ('0' :: x :: '_' :: cs) 16 ds (Nat.ofDigits 16 ds.reverse : Nat)

/-- The texts for an integer that are read: rows of base ten must not be too long. -/
def Spelled (cs : List Char) (n : Int) : Prop :=
  ∃ base ds, Spells cs base ds n ∧ (base = 10 → ds.length ≤ maxDigits)

/-- A row of base ten that is not too long, and its number. -/
def ShortRow (cs : List Char) (m : Nat) : Prop :=
  ∃ ds, Row 10 cs ds ∧ ds.length ≤ maxDigits ∧ m = Nat.ofDigits 10 ds.reverse

/-- Whether characters begin with the prefix of base sixteen. -/
def HasPrefix (cs : List Char) : Prop := ∃ x rest, (x = 'x' ∨ x = 'X') ∧ cs = '0' :: x :: rest

variable {n : Int}

/-- A row of base ten does not begin with the prefix of base sixteen. -/
theorem Row.not_hasPrefix (h : Row 10 cs ds) : ¬HasPrefix cs := by
  rintro ⟨x, rest, hx, rfl⟩
  have hdigit : digitIn? 10 x = none := by rcases hx with rfl | rfl <;> rfl
  cases h with
  | next _ hcs =>
    obtain ⟨d, hd⟩ := hcs.head
    rw [hdigit] at hd
    cases hd
  | gap => rcases hx with hx | hx <;> cases hx

theorem Row.not_sign {c : Char} (h : Row 10 (c :: cs) ds) : c ≠ '-' ∧ c ≠ '+' := by
  obtain ⟨d, hd⟩ := h.head
  constructor
  · rintro rfl
    cases hd
  · rintro rfl
    cases hd

theorem spelled_minus_iff : Spelled ('-' :: cs) n ↔ ∃ m : Nat, ShortRow cs m ∧ n = -m := by
  constructor
  · rintro ⟨base, ds, h, hshort⟩
    cases h with
    | plain h => exact absurd rfl h.not_sign.1
    | minus h => exact ⟨_, ⟨ds, h, hshort rfl, rfl⟩, rfl⟩
  · rintro ⟨m, ⟨ds, h, hshort, rfl⟩, rfl⟩
    exact ⟨10, ds, .minus h, fun _ => hshort⟩

theorem spelled_plus_iff : Spelled ('+' :: cs) n ↔ ∃ m : Nat, ShortRow cs m ∧ n = m := by
  constructor
  · rintro ⟨base, ds, h, hshort⟩
    cases h with
    | plain h => exact absurd rfl h.not_sign.2
    | plus h => exact ⟨_, ⟨ds, h, hshort rfl, rfl⟩, rfl⟩
  · rintro ⟨m, ⟨ds, h, hshort, rfl⟩, rfl⟩
    exact ⟨10, ds, .plus h, fun _ => hshort⟩

theorem spelled_plain_iff (hminus : ∀ rest, cs ≠ '-' :: rest) (hplus : ∀ rest, cs ≠ '+' :: rest)
    (hhex : ¬HasPrefix cs) : Spelled cs n ↔ ∃ m : Nat, ShortRow cs m ∧ n = m := by
  constructor
  · rintro ⟨base, ds, h, hshort⟩
    cases h with
    | plain h => exact ⟨_, ⟨ds, h, hshort rfl, rfl⟩, rfl⟩
    | plus => exact absurd rfl (hplus _)
    | minus => exact absurd rfl (hminus _)
    | hex hx => exact absurd ⟨_, _, hx, rfl⟩ hhex
    | hexGap hx => exact absurd ⟨_, _, hx, rfl⟩ hhex
  · rintro ⟨m, ⟨ds, h, hshort, rfl⟩, rfl⟩
    exact ⟨10, ds, .plain h, fun _ => hshort⟩

theorem spelled_hex_iff {x : Char} (hx : x = 'x' ∨ x = 'X') (hgap : ∀ rest, cs ≠ '_' :: rest) :
    Spelled ('0' :: x :: cs) n ↔ ∃ m : Nat, digitsValue 16 false 0 cs = some m ∧ n = m := by
  simp only [digitsValue_eq_some_iff]
  constructor
  · rintro ⟨base, ds, h, -⟩
    cases h with
    | plain h => exact absurd ⟨x, cs, hx, rfl⟩ h.not_hasPrefix
    | hex _ h => exact ⟨_, ⟨ds, h, rfl⟩, rfl⟩
    | hexGap => exact absurd rfl (hgap _)
  · rintro ⟨m, ⟨ds, h, rfl⟩, rfl⟩
    exact ⟨16, ds, .hex hx h, nofun⟩

theorem spelled_hexGap_iff {x : Char} (hx : x = 'x' ∨ x = 'X') :
    Spelled ('0' :: x :: '_' :: cs) n ↔
      ∃ m : Nat, digitsValue 16 false 0 cs = some m ∧ n = m := by
  simp only [digitsValue_eq_some_iff]
  constructor
  · rintro ⟨base, ds, h, -⟩
    cases h with
    | plain h => exact absurd ⟨x, _, hx, rfl⟩ h.not_hasPrefix
    | hex _ h =>
      obtain ⟨d, hd⟩ := h.head
      cases hd
    | hexGap _ h => exact ⟨_, ⟨ds, h, rfl⟩, rfl⟩
  · rintro ⟨m, ⟨ds, h, rfl⟩, rfl⟩
    exact ⟨16, ds, .hexGap hx h, nofun⟩

/-! ## The readers -/

theorem shortRow_iff {m : Nat} : ShortRow cs m ↔
    digitsValue 10 false 0 cs = some m ∧ (cs.filter (· ≠ '_')).length ≤ maxDigits := by
  rw [digitsValue_eq_some_iff]
  constructor
  · rintro ⟨ds, h, hshort, rfl⟩
    exact ⟨⟨ds, h, rfl⟩, h.length_filter ▸ hshort⟩
  · rintro ⟨⟨ds, h, rfl⟩, hshort⟩
    exact ⟨ds, h, h.length_filter ▸ hshort, rfl⟩

/-- A row of base ten that is read is not too long. -/
theorem Row.length_le_of_spelled (h : Row 10 cs ds) (hs : Spelled cs n) :
    ds.length ≤ maxDigits := by
  have hminus : ∀ rest, cs ≠ '-' :: rest := by
    rintro rest rfl
    exact h.not_sign.1 rfl
  have hplus : ∀ rest, cs ≠ '+' :: rest := by
    rintro rest rfl
    exact h.not_sign.2 rfl
  obtain ⟨m, hm, -⟩ := (spelled_plain_iff hminus hplus h.not_hasPrefix).mp hs
  rw [← h.length_filter]
  exact (shortRow_iff.mp hm).2

/-- A row of base ten is read with the sign before it. -/
theorem readInt_eq_ok_iff_shortRow {s : String} {negative : Bool}
    (hsign : takeSign (trimNumeral s.toList) = (negative, cs)) :
    readInt s = .ok n ↔ ∃ m : Nat, ShortRow cs m ∧ n = if negative then -(m : Int) else m := by
  simp only [shortRow_iff]
  rw [readInt, hsign]
  dsimp only
  cases digitsValue 10 false 0 cs with
  | none => simp
  | some m =>
    dsimp only
    by_cases hshort : (cs.filter (· ≠ '_')).length ≤ maxDigits
    · rw [if_neg (Nat.not_lt.mpr hshort)]
      simp only [Except.ok.injEq, Option.some.injEq, hshort, and_true, exists_eq_left']
      exact eq_comm
    · rw [if_pos (Nat.lt_of_not_le hshort)]
      constructor
      · rintro ⟨⟩
      · rintro ⟨_, ⟨-, h⟩, -⟩
        exact absurd h hshort

theorem readInt_eq_ok_iff {s : String} (htrim : trimNumeral s.toList = s.toList)
    (hhex : ¬HasPrefix s.toList) : readInt s = .ok n ↔ Spelled s.toList n := by
  by_cases hminus : ∃ rest, s.toList = '-' :: rest
  · obtain ⟨rest, hcs⟩ := hminus
    rw [hcs, spelled_minus_iff, readInt_eq_ok_iff_shortRow (by rw [htrim, hcs, takeSign])]
    rfl
  by_cases hplus : ∃ rest, s.toList = '+' :: rest
  · obtain ⟨rest, hcs⟩ := hplus
    rw [hcs, spelled_plus_iff, readInt_eq_ok_iff_shortRow (by rw [htrim, hcs, takeSign])]
    rfl
  have hsign : takeSign s.toList = (false, s.toList) := by
    rw [takeSign]
    · exact fun rest h => hminus ⟨rest, h⟩
    · exact fun rest h => hplus ⟨rest, h⟩
  rw [spelled_plain_iff (fun rest h => hminus ⟨rest, h⟩) (fun rest h => hplus ⟨rest, h⟩) hhex,
    readInt_eq_ok_iff_shortRow (by rw [htrim, hsign])]
  rfl

/-- A row of base sixteen is read after its prefix. -/
theorem readHex_eq_ok_iff {s : String} (htrim : trimNumeral s.toList = s.toList)
    (hhex : HasPrefix s.toList) : readHex s = .ok n ↔ Spelled s.toList n := by
  obtain ⟨x, rest, hx, hcs⟩ := hhex
  have hsign : takeSign ('0' :: x :: rest) = (false, '0' :: x :: rest) := rfl
  have hzero : Text.decimalDigit? '0' = some 0 := rfl
  rw [readHex, htrim, hcs, hsign]
  dsimp only
  rw [if_pos ⟨hzero, hx⟩]
  generalize hdigits : digitsValue 16 false 0 _ = value
  have hspelled : Spelled ('0' :: x :: rest) n ↔ ∃ m : Nat, value = some m ∧ n = m := by
    rw [← hdigits]
    split
    · exact spelled_hexGap_iff hx
    · next hgap => exact spelled_hex_iff hx hgap
  rw [hspelled]
  cases value with
  | none => simp
  | some m => simp [eq_comm]

end Decimal

namespace Text

/-! ## Blanks and case -/

theorem dropWhile_of_head {p : Char → Bool} {cs : List Char}
    (h : ∀ c rest, cs = c :: rest → p c = false) : cs.dropWhile p = cs := by
  cases cs with
  | nil => rfl
  | cons c rest => rw [List.dropWhile_cons, h c rest rfl, if_neg Bool.false_ne_true]

theorem head_dropWhile {p : Char → Bool} {cs : List Char} {c : Char} {rest : List Char}
    (h : cs.dropWhile p = c :: rest) : p c = false := by
  have hne : cs.dropWhile p ≠ [] := by rw [h]; exact List.cons_ne_nil c rest
  have hhead := List.head_dropWhile_not p hne
  simpa only [h, List.head_cons] using hhead

theorem head_trimChars {cs rest : List Char} {c : Char} (h : trimChars cs = c :: rest) :
    isBlank c = false := by
  obtain ⟨front, hfront⟩ := List.dropWhile_suffix (l := (cs.dropWhile isBlank).reverse) isBlank
  have hcs : cs.dropWhile isBlank = trimChars cs ++ front.reverse := by
    rw [trimChars, ← List.reverse_append, hfront, List.reverse_reverse]
  rw [h, List.cons_append] at hcs
  exact head_dropWhile hcs

theorem last_trimChars {cs rest : List Char} {c : Char} (h : (trimChars cs).reverse = c :: rest) :
    isBlank c = false := by
  rw [trimChars, List.reverse_reverse] at h
  exact head_dropWhile h

/-- Without blanks there is nothing to trim. -/
theorem trimChars_of_shown {cs : List Char} (h : ∀ c ∈ cs, isBlank c = false) :
    trimChars cs = cs := by
  have hfront : cs.dropWhile isBlank = cs := dropWhile_of_head fun c rest hcs =>
    h c (hcs ▸ List.mem_cons_self)
  have hback : cs.reverse.dropWhile isBlank = cs.reverse := dropWhile_of_head fun c rest hcs =>
    h c (List.mem_reverse.mp (hcs ▸ List.mem_cons_self))
  rw [trimChars, hfront, hback, List.reverse_reverse]

theorem isNumeralBlank_of_isBlank {c : Char} (h : isBlank c = false) :
    Decimal.isNumeralBlank c = false := by
  simp only [Decimal.isNumeralBlank, h, Bool.and_false, Bool.or_false]
  simp only [isBlank, Bool.or_eq_false_iff, Bool.and_eq_false_iff, decide_eq_false_iff_not,
    beq_eq_false_iff_ne] at h ⊢
  omega

/-- A trimmed text has no blanks around a numeral. -/
theorem trimNumeral_trimChars (cs : List Char) :
    Decimal.trimNumeral (trimChars cs) = trimChars cs := by
  have hfront : (trimChars cs).dropWhile Decimal.isNumeralBlank = trimChars cs :=
    dropWhile_of_head fun c rest h => isNumeralBlank_of_isBlank (head_trimChars h)
  have hback : (trimChars cs).reverse.dropWhile Decimal.isNumeralBlank = (trimChars cs).reverse :=
    dropWhile_of_head fun c rest h => isNumeralBlank_of_isBlank (last_trimChars h)
  rw [Decimal.trimNumeral, hfront, hback, List.reverse_reverse]

theorem toNat_lowerAscii (c : Char) :
    (lowerAscii c).toNat = if 65 ≤ c.toNat ∧ c.toNat ≤ 90 then c.toNat + 32 else c.toNat := by
  have hcapital : ('A' ≤ c ∧ c ≤ 'Z') ↔ 65 ≤ c.toNat ∧ c.toNat ≤ 90 :=
    and_congr UInt32.le_iff_toNat_le UInt32.le_iff_toNat_le
  rw [lowerAscii]
  simp only [hcapital]
  split
  · next h =>
    have hvalid : (c.toNat + 32).isValidChar := .inl (by omega)
    rw [Char.ofNat, dif_pos hvalid]
    rfl
  · rfl

/-- A character of a text in lower case that is no `k` and no `i` comes from one character. -/
theorem exists_of_lowered {cs rest : List Char} {d : Char}
    (h : cs.flatMap lowerWordChar = d :: rest) (hk : d ≠ 'k') (hi : d ≠ 'i') :
    ∃ c cs', cs = c :: cs' ∧ lowerAscii c = d ∧ cs'.flatMap lowerWordChar = rest := by
  cases cs with
  | nil => cases h
  | cons c cs =>
    rw [List.flatMap_cons, lowerWordChar] at h
    split at h
    · exact absurd (List.cons.inj h).1.symm hk
    split at h
    · exact absurd (List.cons.inj h).1.symm hi
    · exact ⟨c, cs, rfl, (List.cons.inj h).1, (List.cons.inj h).2⟩

/-- The prefix of base sixteen, in any case. -/
theorem lowerWord_prefix_iff (s : String) :
    "0x".toList.isPrefixOf (lowerWord s).toList = true ↔ Decimal.HasPrefix s.toList := by
  have hzero : ∀ {c : Char}, lowerAscii c = '0' → c = '0' := by
    intro c h
    rw [← Char.toNat_inj, toNat_lowerAscii, show '0'.toNat = 48 from rfl] at h
    rw [← Char.toNat_inj, show '0'.toNat = 48 from rfl]
    split at h <;> omega
  have hx : ∀ {c : Char}, lowerAscii c = 'x' → c = 'x' ∨ c = 'X' := by
    intro c h
    rw [← Char.toNat_inj, toNat_lowerAscii, show 'x'.toNat = 120 from rfl] at h
    rw [← Char.toNat_inj, ← Char.toNat_inj, show 'x'.toNat = 120 from rfl,
      show 'X'.toNat = 88 from rfl]
    split at h <;> omega
  have hchars : (lowerWord s).toList = s.toList.flatMap lowerWordChar := String.toList_ofList
  rw [List.isPrefixOf_iff_prefix, hchars]
  constructor
  · rintro ⟨tail, h⟩
    have h : s.toList.flatMap lowerWordChar = '0' :: 'x' :: tail := h.symm
    obtain ⟨z, cs, hs, hz, hcs⟩ := exists_of_lowered h (by decide) (by decide)
    obtain ⟨x, rest, rfl, hlower, -⟩ := exists_of_lowered hcs (by decide) (by decide)
    rw [hzero hz] at hs
    exact ⟨x, rest, hx hlower, hs⟩
  · rintro ⟨x, rest, hlower, hs⟩
    rw [hs]
    rcases hlower with rfl | rfl
    · exact ⟨rest.flatMap lowerWordChar, rfl⟩
    · exact ⟨rest.flatMap lowerWordChar, rfl⟩

end Text

/-- **Integers in texts.**  A text is read as an integer when it spells the integer, with blanks
around it. -/
theorem RegistryValue.readNumeral_eq_ok_iff {s : String} {n : Int} :
    readNumeral (Text.trim s) = .ok n ↔ Decimal.Spelled (Text.trimChars s.toList) n := by
  have htrim : Decimal.trimNumeral (Text.trim s).toList = (Text.trim s).toList := by
    rw [Text.trim, String.toList_ofList, Text.trimNumeral_trimChars]
  have hchars : (Text.trim s).toList = Text.trimChars s.toList := by
    rw [Text.trim, String.toList_ofList]
  rw [readNumeral, ← hchars]
  by_cases hhex : Decimal.HasPrefix (Text.trim s).toList
  · rw [if_pos ((Text.lowerWord_prefix_iff _).mpr hhex)]
    exact Decimal.readHex_eq_ok_iff htrim hhex
  · rw [if_neg fun h => hhex ((Text.lowerWord_prefix_iff _).mp h)]
    exact Decimal.readInt_eq_ok_iff htrim hhex

end TweakEngine
