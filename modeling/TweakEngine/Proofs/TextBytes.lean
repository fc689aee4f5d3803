/-
# Texts and their bytes

Reading bytes accepts no shorter form of a character, no surrogate and nothing above the last code
point, so one step of reading gives the character whose bytes stand there
(`Encoding.utf8Char_of_step`), and writing the text that was read gives the bytes again
(`Encoding.utf8_of_decode`).  Unifying the line ends in between keeps the bytes if and only if there
is no carriage return among them (`Encoding.utf8_unified_iff`).
-/

import TweakEngine.Proofs.Files

namespace TweakEngine
namespace Encoding

variable {a b c d : UInt8} {bs rest : List UInt8} {ch : Char} {k n : Nat}

theorem toNat_ofNat_of_isValidChar (h : n.isValidChar) : (Char.ofNat n).toNat = n := by
  rw [Char.ofNat, dif_pos h]
  rfl

/-- A number that a byte holds is that byte. -/
theorem ofNat_eq_byte (h : n = a.toNat) : UInt8.ofNat n = a := by rw [h, UInt8.ofNat_toNat]

/-- What a start byte announces. -/
theorem of_startByte? (h : startByte? a = some (k, n)) :
    (k = 1 ∧ a.toNat < 0x80 ∧ n = a.toNat) ∨
    (k = 2 ∧ 0xC2 ≤ a.toNat ∧ a.toNat < 0xE0 ∧ n = a.toNat - 0xC0) ∨
    (k = 3 ∧ 0xE0 ≤ a.toNat ∧ a.toNat < 0xF0 ∧ n = a.toNat - 0xE0) ∨
    (k = 4 ∧ 0xF0 ≤ a.toNat ∧ a.toNat < 0xF5 ∧ n = a.toNat - 0xF0) := by
  unfold startByte? at h
  dsimp only at h
  split_ifs at h <;> cases h <;> omega

/-- A second byte continues a character, and some start bytes leave it less room: shorter forms,
surrogates and what lies above the last code point are cut off. -/
theorem of_secondByteOk (h : secondByteOk a b = true) :
    (0x80 ≤ b.toNat ∧ b.toNat < 0xC0) ∧ (a.toNat = 0xE0 → 0xA0 ≤ b.toNat) ∧
      (a.toNat = 0xED → b.toNat < 0xA0) ∧ (a.toNat = 0xF0 → 0x90 ≤ b.toNat) ∧
      (a.toNat = 0xF4 → b.toNat < 0x90) := by
  unfold secondByteOk at h
  dsimp only at h
  split_ifs at h <;> simp only [Bool.and_eq_true, decide_eq_true_eq] at h <;> omega

theorem of_isContinuation (h : isContinuation b = true) : 0x80 ≤ b.toNat ∧ b.toNat < 0xC0 := by
  simpa [isContinuation] using h

theorem utf8Char_one (hstart : startByte? a = some (1, n)) : utf8Char (Char.ofNat n) = [a] := by
  have hn := of_startByte? hstart
  have hchar : (Char.ofNat n).toNat = n :=
    toNat_ofNat_of_isValidChar (by unfold Nat.isValidChar; omega)
  rw [utf8Char, hchar, if_pos (by omega), ofNat_eq_byte (by omega : n = a.toNat)]

theorem utf8Char_two (hstart : startByte? a = some (2, n)) (hb : secondByteOk a b = true)
    (hk : n * 64 + b.toNat % 64 = k) : utf8Char (Char.ofNat k) = [a, b] := by
  have hn := of_startByte? hstart
  have hb := of_secondByteOk hb
  have hchar : (Char.ofNat k).toNat = k :=
    toNat_ofNat_of_isValidChar (by unfold Nat.isValidChar; omega)
  rw [utf8Char, hchar, if_neg (by omega), if_pos (by omega),
    ofNat_eq_byte (by omega : 0xC0 + k / 64 = a.toNat),
    ofNat_eq_byte (by omega : 0x80 + k % 64 = b.toNat)]

theorem utf8Char_three (hstart : startByte? a = some (3, n)) (hb : secondByteOk a b = true)
    (hc : isContinuation c = true) (hk : (n * 64 + b.toNat % 64) * 64 + c.toNat % 64 = k) :
    utf8Char (Char.ofNat k) = [a, b, c] := by
  have hn := of_startByte? hstart
  have hb := of_secondByteOk hb
  have hc := of_isContinuation hc
  have hchar : (Char.ofNat k).toNat = k :=
    toNat_ofNat_of_isValidChar (by unfold Nat.isValidChar; omega)
  rw [utf8Char, hchar, if_neg (by omega), if_neg (by omega), if_pos (by omega),
    ofNat_eq_byte (by omega : 0xE0 + k / 4096 = a.toNat),
    ofNat_eq_byte (by omega : 0x80 + k / 64 % 64 = b.toNat),
    ofNat_eq_byte (by omega : 0x80 + k % 64 = c.toNat)]

theorem utf8Char_four (hstart : startByte? a = some (4, n)) (hb : secondByteOk a b = true)
    (hc : isContinuation c = true) (hd : isContinuation d = true)
    (hk : ((n * 64 + b.toNat % 64) * 64 + c.toNat % 64) * 64 + d.toNat % 64 = k) :
    utf8Char (Char.ofNat k) = [a, b, c, d] := by
  have hn := of_startByte? hstart
  have hb := of_secondByteOk hb
  have hc := of_isContinuation hc
  have hd := of_isContinuation hd
  have hchar : (Char.ofNat k).toNat = k :=
    toNat_ofNat_of_isValidChar (by unfold Nat.isValidChar; omega)
  rw [utf8Char, hchar, if_neg (by omega), if_neg (by omega), if_neg (by omega),
    ofNat_eq_byte (by omega : 0xF0 + k / 262144 = a.toNat),
    ofNat_eq_byte (by omega : 0x80 + k / 4096 % 64 = b.toNat),
    ofNat_eq_byte (by omega : 0x80 + k / 64 % 64 = c.toNat),
    ofNat_eq_byte (by omega : 0x80 + k % 64 = d.toNat)]

/-- **Reading one character** gives the character whose bytes stand there. -/
theorem utf8Char_of_step (h : utf8Step a rest = .ok (ch, n)) :
    utf8Char ch ++ rest.drop (n - 1) = a :: rest := by
  unfold utf8Step at h
  split at h
  case h_1 => cases h
  case h_2 hstart =>
    cases h
    rw [utf8Char_one hstart]
    rfl
  case h_3 hstart =>
    split at h
    · cases h
    split at h <;> cases h
    rw [utf8Char_two hstart ‹_› rfl]
    rfl
  case h_4 hstart =>
    split at h
    · cases h
    split at h
    · cases h
    rename_i hb
    rw [Bool.not_eq_true, Bool.not_eq_false'] at hb
    split at h
    · cases h
    split at h <;> cases h
    rw [utf8Char_three hstart hb ‹_› rfl]
    rfl
  case h_5 k m hone htwo hthree hstart =>
    -- no start byte announces more than four bytes
    obtain rfl : k = 4 := by
      rcases of_startByte? hstart with hk | hk | hk | hk
      · exact (hone hk.1).elim
      · exact (htwo hk.1).elim
      · exact (hthree hk.1).elim
      · exact hk.1
    split at h
    · cases h
    split at h
    · cases h
    rename_i hb
    rw [Bool.not_eq_true, Bool.not_eq_false'] at hb
    split at h
    · cases h
    split at h
    · cases h
    rename_i hc
    rw [Bool.not_eq_true, Bool.not_eq_false'] at hc
    split at h
    · cases h
    split at h <;> cases h
    rw [utf8Char_four hstart hb hc ‹_› rfl]
    rfl

/-- What is left to read is as long as the number of steps, so reading ends at the last byte. -/
theorem flatMap_of_decodeFrom : ∀ {fuel position : Nat} {acc cs : List Char} {bs : List UInt8},
    decodeFrom fuel position acc bs = .ok cs → bs.length ≤ fuel →
      cs.flatMap utf8Char = acc.reverse.flatMap utf8Char ++ bs
  | 0, _, _, _, bs, h, hfuel => by
    cases h
    rw [List.length_eq_zero_iff.mp (Nat.le_zero.mp hfuel), List.append_nil]
  | _ + 1, _, _, _, [], h, _ => by
    cases h
    rw [List.append_nil]
  | fuel + 1, position, acc, cs, a :: rest, h, hfuel => by
    rw [decodeFrom] at h
    split at h
    · next c n hstep =>
      have hrest : (rest.drop (n - 1)).length ≤ fuel := by
        rw [List.length_drop]
        rw [List.length_cons] at hfuel
        omega
      rw [flatMap_of_decodeFrom h hrest, List.reverse_cons, List.flatMap_append, List.append_assoc,
        List.flatMap_singleton, utf8Char_of_step hstep]
    · cases h

/-- **Writing what was read** gives the bytes again. -/
theorem utf8_of_decode {s : String} (h : decode bs = .ok s) : utf8 s = bs := by
  unfold decode decodeChars at h
  cases hchars : decodeFrom bs.length 0 [] bs with
  | error e => rw [hchars] at h; cases h
  | ok cs =>
    rw [hchars] at h
    cases h
    rw [utf8, String.toList_ofList]
    exact flatMap_of_decodeFrom hchars (Nat.le_refl _)

/-! ## Line ends -/

theorem toNat_lt_limit (ch : Char) : ch.toNat < 0x110000 := by
  have h := ch.valid
  unfold UInt32.isValidChar Nat.isValidChar at h
  rw [Char.toNat_val] at h
  omega

/-- The byte of a carriage return stands for this character only. -/
theorem return_mem_utf8Char : 13 ∈ utf8Char ch ↔ ch = '\r' := by
  constructor
  · intro h
    have hbyte {n : Nat} (hn : 13 = UInt8.ofNat n) : n % 256 = 13 := by
      rw [← UInt8.toNat_ofNat', ← hn]
      rfl
    have hlast := toNat_lt_limit ch
    -- every byte of a longer form is 128 or more
    have hch : ch.toNat = 13 := by
      unfold utf8Char at h
      dsimp only at h
      split_ifs at h <;> simp only [List.mem_cons, List.not_mem_nil, or_false] at h
      · have := hbyte h
        omega
      · rcases h with h | h <;> have := hbyte h <;> omega
      · rcases h with h | h | h <;> have := hbyte h <;> omega
      · rcases h with h | h | h | h <;> have := hbyte h <;> omega
    exact Char.toNat_inj.mp hch
  · rintro rfl
    decide

theorem return_mem_utf8 {s : String} : 13 ∈ utf8 s ↔ '\r' ∈ s.toList := by
  rw [utf8, List.mem_flatMap]
  simp only [return_mem_utf8Char, exists_eq_right]

theorem not_mem_unifyLineEnds (cs : List Char) : '\r' ∉ unifyLineEnds cs := by
  fun_induction unifyLineEnds cs with
  | case1 => exact List.not_mem_nil
  | case2 cs ih => exact fun h => (List.mem_cons.mp h).elim (by decide) ih
  | case3 cs hnot ih => exact fun h => (List.mem_cons.mp h).elim (by decide) ih
  | case4 c cs hnot hreturn ih =>
    exact fun h => (List.mem_cons.mp h).elim (fun e => hreturn e.symm) ih

/-- A text with a newline at the end of each line. -/
def unified (s : String) : String := String.ofList (unifyLineEnds s.toList)

/-- **A text keeps its bytes when its line ends are unified** if and only if no carriage return is
among them. -/
theorem utf8_unified_iff {s : String} : utf8 (unified s) = utf8 s ↔ 13 ∉ utf8 s := by
  constructor
  · intro h
    rw [← h, return_mem_utf8, unified, String.toList_ofList]
    exact not_mem_unifyLineEnds _
  · intro h
    rw [return_mem_utf8] at h
    rw [unified, unifyLineEnds_of_not_mem h, String.ofList_toList]

end Encoding
end TweakEngine
