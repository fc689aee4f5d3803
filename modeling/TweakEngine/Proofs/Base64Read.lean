/-
# Reading written base 64

Each letter adds six bits to those that are left of the letters before it, so reading the
four characters of a group gives back its bytes (`Base64.decode_encode`).
-/

import TweakEngine.Encoding.Base64

namespace TweakEngine
namespace Base64

theorem value?_letter : ∀ n : Fin 64, value? (letter n) = some n.val := by decide

theorem letter_ascii : ∀ n : Fin 64, (letter n).toNat < 128 ∧ letter n ≠ '=' := by decide

section

variable {n : Nat} (hn : n < 64) (cs : List Char) (left data : Nat)

include hn

/-- Reading a letter adds its six bits. -/
theorem decodeFrom_letter (position : Nat) :
    decodeFrom ⟨position, left, 0, false, data⟩ (letter n :: cs) =
      match position with
      | 0 => decodeFrom ⟨1, n, 0, false, data + 1⟩ cs
      | 1 => (UInt8.ofNat ((left * 64 + n) / 16) :: ·) <$>
          decodeFrom ⟨2, (left * 64 + n) % 16, 0, false, data + 1⟩ cs
      | 2 => (UInt8.ofNat ((left * 64 + n) / 4) :: ·) <$>
          decodeFrom ⟨3, (left * 64 + n) % 4, 0, false, data + 1⟩ cs
      | _ => (UInt8.ofNat (left * 64 + n) :: ·) <$> decodeFrom ⟨0, 0, 0, false, data + 1⟩ cs := by
  have hvalue : value? (letter n) = some n := value?_letter ⟨n, hn⟩
  have hpad : letter n ≠ '=' := (letter_ascii ⟨n, hn⟩).2
  rcases position with _ | _ | _ | _ <;> rw [decodeFrom, if_neg hpad, hvalue] <;> rfl

theorem decodeFrom_first : decodeFrom ⟨0, left, 0, false, data⟩ (letter n :: cs) =
    decodeFrom ⟨1, n, 0, false, data + 1⟩ cs := decodeFrom_letter hn cs left data 0

theorem decodeFrom_second : decodeFrom ⟨1, left, 0, false, data⟩ (letter n :: cs) =
    (UInt8.ofNat ((left * 64 + n) / 16) :: ·) <$>
      decodeFrom ⟨2, (left * 64 + n) % 16, 0, false, data + 1⟩ cs :=
  decodeFrom_letter hn cs left data 1

theorem decodeFrom_third : decodeFrom ⟨2, left, 0, false, data⟩ (letter n :: cs) =
    (UInt8.ofNat ((left * 64 + n) / 4) :: ·) <$>
      decodeFrom ⟨3, (left * 64 + n) % 4, 0, false, data + 1⟩ cs :=
  decodeFrom_letter hn cs left data 2

theorem decodeFrom_fourth : decodeFrom ⟨3, left, 0, false, data⟩ (letter n :: cs) =
    (UInt8.ofNat (left * 64 + n) :: ·) <$> decodeFrom ⟨0, 0, 0, false, data + 1⟩ cs :=
  decodeFrom_letter hn cs left data 3

end

theorem ofNat_toNat_eq {n : Nat} {b : UInt8} (h : n % 256 = b.toNat) : UInt8.ofNat n = b := by
  rw [← UInt8.toNat_inj, UInt8.toNat_ofNat', h]

/-- Reading written groups of characters. -/
theorem decodeFrom_encodeChars : ∀ (bs : List UInt8) (data : Nat),
    decodeFrom ⟨0, 0, 0, false, data⟩ (encodeChars bs) = .ok bs
  | [], _ => rfl
  | [a], data => by
    have ha := a.toNat_lt
    rw [encodeChars, decodeFrom_first (by omega), decodeFrom_second (by omega),
      ofNat_toNat_eq (b := a) (by omega)]
    rfl
  | [a, b], data => by
    have ha := a.toNat_lt
    have hb := b.toNat_lt
    rw [encodeChars, decodeFrom_first (by omega), decodeFrom_second (by omega),
      decodeFrom_third (by omega), ofNat_toNat_eq (b := a) (by omega),
      ofNat_toNat_eq (b := b) (by omega)]
    rfl
  | a :: b :: c :: rest, data => by
    have ha := a.toNat_lt
    have hb := b.toNat_lt
    have hc := c.toNat_lt
    rw [encodeChars, decodeFrom_first (by omega), decodeFrom_second (by omega),
      decodeFrom_third (by omega), decodeFrom_fourth (by omega), ofNat_toNat_eq (b := a) (by omega),
      ofNat_toNat_eq (b := b) (by omega), ofNat_toNat_eq (b := c) (by omega),
      decodeFrom_encodeChars rest]
    rfl

/-- What is written are letters and padding. -/
theorem encodeChars_ascii : ∀ (bs : List UInt8), ∀ c ∈ encodeChars bs, c.toNat < 128 := by
  have hletter : ∀ n < 64, (letter n).toNat < 128 := fun n hn => (letter_ascii ⟨n, hn⟩).1
  intro bs
  fun_induction encodeChars bs with
  | case1 => exact nofun
  | case2 a n =>
    have ha := a.toNat_lt
    simp only [List.forall_mem_cons]
    exact ⟨hletter _ (by omega), hletter _ (by omega), by decide, by decide, nofun⟩
  | case3 a b n =>
    have ha := a.toNat_lt
    have hb := b.toNat_lt
    simp only [List.forall_mem_cons]
    exact ⟨hletter _ (by omega), hletter _ (by omega), hletter _ (by omega), by decide, nofun⟩
  | case4 a b c rest n ih =>
    have ha := a.toNat_lt
    have hb := b.toNat_lt
    have hc := c.toNat_lt
    simp only [List.forall_mem_cons]
    exact ⟨hletter _ (by omega), hletter _ (by omega), hletter _ (by omega), hletter _ (by omega), ih⟩

theorem encodeChars_head (bs : List UInt8) : (encodeChars bs).head? ≠ some '=' := by
  have hletter : ∀ n < 64, some (letter n) ≠ some '=' := fun n hn e =>
    (letter_ascii ⟨n, hn⟩).2 (Option.some.inj e)
  fun_cases encodeChars bs with
  | case1 => exact nofun
  | case2 a n =>
    have ha := a.toNat_lt
    exact hletter _ (by omega)
  | case3 a b n =>
    have ha := a.toNat_lt
    have hb := b.toNat_lt
    exact hletter _ (by omega)
  | case4 a b c rest n =>
    have ha := a.toNat_lt
    have hb := b.toNat_lt
    have hc := c.toNat_lt
    exact hletter _ (by omega)

/-- **Reading base 64** gives the bytes back. -/
theorem decode_encode (bs : List UInt8) : decode (encode bs) = .ok bs := by
  have hascii : (encodeChars bs).any (fun c => 128 ≤ c.toNat) = false := by
    rw [List.any_eq_false]
    intro c hc
    have := encodeChars_ascii bs c hc
    simpa using this
  rw [decode, encode, String.toList_ofList]
  rw [hascii, if_neg Bool.false_ne_true, if_neg (encodeChars_head bs), decodeFrom_encodeChars]

end Base64

end TweakEngine
