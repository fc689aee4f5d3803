/-
# Reading written JSON

`Datum.Exact` are the values that a file of JSON holds exactly: without doubles, with
integers that can be read back, and with each key of an object once.  Reading what was
written of such a value gives the value back (`read_write`).  The written text has only
newlines and visible ASCII (`shown_write`).
-/

import TweakEngine.Proofs.JsonTexts
import TweakEngine.Proofs.Tables

namespace TweakEngine
namespace Datum

mutual

/-- Values that a file of JSON holds exactly: without doubles, with integers that are short
enough to be read back, and with each key of an object once. -/
def Exact : Datum → Prop
  | null | bool _ | text _ => True
  | int n => (Decimal.natChars n.natAbs).length ≤ Decimal.maxDigits
  | list items => ExactItems items
  | object fields => (Assoc.keys fields).Nodup ∧ ExactFields fields
  | float _ | bytes _ | tuple _ | registry _ => False

/-- Lists of such values. -/
def ExactItems : List Datum → Prop
  | [] => True
  | item :: items => Exact item ∧ ExactItems items

/-- Fields with such values. -/
def ExactFields : List (String × Datum) → Prop
  | [] => True
  | (_, value) :: fields => Exact value ∧ ExactFields fields

end
end Datum

namespace Json

variable {l : Layout} {depth fuel p : Nat} {rest : List Char}

theorem length_le_escaped (cs : List Char) : cs.length ≤ (cs.flatMap escapeChar).length := by
  induction cs with
  | nil => exact Nat.le_refl 0
  | cons c cs ih =>
    have hc : 0 < (escapeChar c).length := by
      unfold escapeChar
      dsimp only
      repeat' split
      all_goals exact Nat.succ_pos _
    rw [List.flatMap_cons, List.length_append, List.length_cons]
    omega

theorem escaped_toList (s : String) (rest : List Char) :
    (escaped s).toList ++ rest = '"' :: (s.toList.flatMap escapeChar ++ '"' :: rest) := by
  rw [escaped, String.toList_ofList]
  simp

/-- Reading a written text. -/
theorem textFrom_escaped (s : String) (start : Nat) (rest : List Char) :
    ∃ p', textFrom start ((s.toList.flatMap escapeChar ++ '"' :: rest).length + 1) p []
      (s.toList.flatMap escapeChar ++ '"' :: rest) = .ok (s, p', rest) := by
  have hlen := length_le_escaped s.toList
  obtain ⟨p', h⟩ := textFrom_flatMap start rest s.toList
    ((s.toList.flatMap escapeChar ++ '"' :: rest).length + 1) p []
    (by rw [List.length_append]; omega)
  exact ⟨p', by rw [h]; simp⟩

theorem skipSpace_append {sp : List Char} (h : ∀ c ∈ sp, isSpace c = true) (p : Nat)
    (rest : List Char) : skipSpace p (sp ++ rest) = skipSpace (p + sp.length) rest := by
  induction sp generalizing p with
  | nil => rfl
  | cons c sp ih =>
    rw [List.cons_append, skipSpace, if_pos (h c List.mem_cons_self),
      ih fun c' hc => h c' (List.mem_cons_of_mem _ hc), List.length_cons, Nat.add_assoc,
      Nat.add_comm 1]

theorem skipSpace_cons {c : Char} (h : isSpace c = false) (p : Nat) (cs : List Char) :
    skipSpace p (c :: cs) = (p, c :: cs) := by
  rw [skipSpace, if_neg (by rw [h]; exact Bool.false_ne_true)]

/-- The blanks around the items of a list and between them. -/
structure Blanks (l : Layout) (depth : Nat) (first middle last : List Char) : Prop where
  breaks : l.breaks depth = (String.ofList first, String.ofList (',' :: middle), String.ofList last)
  before : ∀ c ∈ first, isSpace c = true
  between : ∀ c ∈ middle, isSpace c = true
  after : ∀ c ∈ last, isSpace c = true
  ends : ∀ c rest, c = ']' ∨ c = '\x7d' → Ends (last ++ c :: rest)

theorem exists_blanks (l : Layout) (depth : Nat) :
    ∃ first middle last, Blanks l depth first middle last := by
  have hspaces : ∀ n, ∀ c ∈ '\n' :: List.replicate n ' ', isSpace c = true := fun n c hc => by
    rcases List.mem_cons.mp hc with rfl | hc
    · rfl
    · rw [List.eq_of_mem_replicate hc]; rfl
  cases l with
  | oneLine =>
    refine ⟨[], [' '], [], rfl, nofun, fun c hc => ?_, nofun, fun c rest hc => .cons ?_ rest⟩
    · rw [List.mem_singleton.mp hc]; rfl
    · exact .inr (.inr hc)
  | indented width =>
    refine ⟨_, _, _, ?_, hspaces (width * (depth + 1)), hspaces (width * (depth + 1)),
      hspaces (width * depth), fun c rest hc => .cons (.inr (.inl rfl)) _⟩
    simp only [Layout.breaks, Prod.mk.injEq, ← String.toList_inj, String.toList_append,
      String.toList_ofList]
    exact ⟨rfl, rfl, rfl⟩

/-- The characters between brackets. -/
theorem bracket_toList {first middle last : List Char} (hb : Blanks l depth first middle last)
    (opening closing : String) {parts : List String} (h : parts ≠ []) :
    (l.bracket depth opening closing parts).toList = opening.toList ++
      (first ++ ((Text.join (String.ofList (',' :: middle)) parts).toList ++
        (last ++ closing.toList))) := by
  rw [Layout.bracket, if_neg (by simpa using h), hb.breaks]
  simp

theorem isSpace_of_isDigit {c : Char} (h : c.isDigit = true) : isSpace c = false := by
  refine Bool.eq_false_iff.mpr fun hs => ?_
  simp only [isSpace, Bool.or_eq_true, beq_iff_eq] at hs
  rcases hs with ((rfl | rfl) | rfl) | rfl <;> cases h

/-- How a written value begins. -/
theorem writeAt_head (l : Layout) (depth : Nat) {d : Datum} (h : d.Exact) :
    ∃ c cs, (writeAt l depth d).toList = c :: cs ∧ isSpace c = false ∧ c ≠ ']' := by
  have hbracket : ∀ o c parts, isSpace o = false ∧ o ≠ ']' →
      ∃ o' cs, (l.bracket depth (String.ofList [o]) c parts).toList = o' :: cs ∧
        isSpace o' = false ∧ o' ≠ ']' := by
    intro o c parts ho
    refine ⟨o, ?_⟩
    unfold Layout.bracket
    split
    · exact ⟨c.toList, by simp, ho⟩
    · exact ⟨_, by simp; rfl, ho⟩
  cases d with
  | null => exact ⟨'n', ['u', 'l', 'l'], by simp [writeAt], rfl, by decide⟩
  | bool b =>
    cases b
    · exact ⟨'f', ['a', 'l', 's', 'e'], by simp [writeAt], rfl, by decide⟩
    · exact ⟨'t', ['r', 'u', 'e'], by simp [writeAt], rfl, by decide⟩
  | text s =>
    have hs := escaped_toList s []
    rw [List.append_nil] at hs
    exact ⟨'"', _, hs, rfl, by decide⟩
  | list items => exact hbracket '[' "]" (writeItems l (depth + 1) items) ⟨rfl, by decide⟩
  | object fields => exact hbracket '\x7b' "\x7d" (writeFields l (depth + 1) fields) ⟨rfl, by decide⟩
  | int n =>
    unfold writeAt Decimal.intText
    split
    · exact ⟨'-', _, String.toList_ofList, rfl, by decide⟩
    · obtain ⟨c, cs, hcs⟩ :=
        List.exists_cons_of_ne_nil (l := Decimal.natChars n.natAbs) Nat.toDigits_ne_nil
      have hc : c.isDigit = true := natChars_digit (n := n.natAbs) c (hcs ▸ List.mem_cons_self)
      refine ⟨c, cs, by rw [String.toList_ofList, hcs], isSpace_of_isDigit hc, fun e => ?_⟩
      rw [e] at hc
      cases hc
  | float | bytes | tuple | registry => cases h

/-- A word or a number is not taken for a word when it begins like a number. -/
theorem scalar_intText {n : Int} (hn : (Decimal.natChars n.natAbs).length ≤ Decimal.maxDigits)
    (h : Ends rest) (p : Nat) :
    ∃ p', scalar p ((Decimal.intText n).toList ++ rest) = .ok (.int n, p', rest) := by
  obtain ⟨p', hp'⟩ := number_intText hn h p
  refine ⟨p', ?_⟩
  have hnone : words.find? (fun w => w.1.isPrefixOf ((Decimal.intText n).toList ++ rest)) = none := by
    obtain ⟨c, cs, hcs⟩ :=
      List.exists_cons_of_ne_nil (l := Decimal.natChars n.natAbs) Nat.toDigits_ne_nil
    have hc : c.isDigit = true := natChars_digit (n := n.natAbs) c (hcs ▸ List.mem_cons_self)
    have hne : ∀ x : Char, x.isDigit = false → x ≠ c := fun x hx e => by
      rw [e, hc] at hx
      cases hx
    unfold Decimal.intText
    split
    · rw [String.toList_ofList, hcs]
      simp [words, List.isPrefixOf, hne 'I' rfl]
    · rw [String.toList_ofList, hcs]
      simp [words, List.isPrefixOf, hne 'n' rfl, hne 't' rfl, hne 'f' rfl, hne 'N' rfl, hne 'I' rfl, hne '-' rfl]
  rw [scalar, hnone, hp']

/-- Reading one of the three words. -/
theorem value_word {d : Datum} (h : d = .null ∨ d = .bool true ∨ d = .bool false) :
    ∃ p', value (fuel + 1) p ((writeAt l depth d).toList ++ rest) = .ok (d, p', rest) := by
  rcases h with rfl | rfl | rfl
  · have hw : (writeAt l depth .null).toList = ['n', 'u', 'l', 'l'] := by simp [writeAt]
    exact ⟨p + 4, by simp [hw, value, scalar, words, List.isPrefixOf]⟩
  · have hw : (writeAt l depth (.bool true)).toList = ['t', 'r', 'u', 'e'] := by simp [writeAt]
    exact ⟨p + 4, by simp [hw, value, scalar, words, List.isPrefixOf]⟩
  · have hw : (writeAt l depth (.bool false)).toList = ['f', 'a', 'l', 's', 'e'] := by simp [writeAt]
    exact ⟨p + 5, by simp [hw, value, scalar, words, List.isPrefixOf]⟩

/-- Reading a written integer as a value. -/
theorem value_int {n : Int} (hn : (Decimal.natChars n.natAbs).length ≤ Decimal.maxDigits)
    (h : Ends rest) : ∃ p', value (fuel + 1) p ((Decimal.intText n).toList ++ rest) =
      .ok (.int n, p', rest) := by
  obtain ⟨p', hp'⟩ := scalar_intText hn h p
  obtain ⟨c, cs, hcs, hc⟩ : ∃ c cs, (Decimal.intText n).toList = c :: cs ∧
      (c = '-' ∨ c.isDigit = true) := by
    unfold Decimal.intText
    split
    · exact ⟨'-', _, String.toList_ofList, .inl rfl⟩
    · obtain ⟨c, cs, hcs⟩ :=
        List.exists_cons_of_ne_nil (l := Decimal.natChars n.natAbs) Nat.toDigits_ne_nil
      exact ⟨c, cs, by rw [String.toList_ofList, hcs],
        .inr (natChars_digit (n := n.natAbs) c (hcs ▸ List.mem_cons_self))⟩
  have hne : ∀ x : Char, x ≠ '-' → x.isDigit = false → c ≠ x := fun x hx hd e => by
    subst e
    rcases hc with rfl | hc
    · exact hx rfl
    · rw [hd] at hc; cases hc
  refine ⟨p', ?_⟩
  rw [hcs, List.cons_append] at hp' ⊢
  rw [value, hp']
  · exact hne '"' (by decide) rfl
  · exact hne '[' (by decide) rfl
  · exact hne '\x7b' (by decide) rfl

/-- Reading a written text as a value. -/
theorem value_text (s : String) :
    ∃ p', value (fuel + 1) p ((escaped s).toList ++ rest) = .ok (.text s, p', rest) := by
  obtain ⟨p', h⟩ := textFrom_escaped (p := p + 1) s p rest
  refine ⟨p', ?_⟩
  rw [escaped_toList, value, h]
  rfl

variable {first middle last : List Char}

/-- The written items of a list with the separators between them. -/
def itemsText (l : Layout) (depth : Nat) (middle : List Char) (xs : List Datum) : List Char :=
  (Text.join (String.ofList (',' :: middle)) (writeItems l (depth + 1) xs)).toList

/-- The written fields of an object with the separators between them. -/
def fieldsText (l : Layout) (depth : Nat) (middle : List Char) (fs : List (String × Datum)) :
    List Char :=
  (Text.join (String.ofList (',' :: middle)) (writeFields l (depth + 1) fs)).toList

theorem itemsText_one (x : Datum) :
    itemsText l depth middle [x] = (writeAt l (depth + 1) x).toList := by
  simp [itemsText, writeItems, Text.join]

theorem itemsText_cons (x y : Datum) (xs : List Datum) : itemsText l depth middle (x :: y :: xs) =
    (writeAt l (depth + 1) x).toList ++ (',' :: (middle ++ itemsText l depth middle (y :: xs))) := by
  rw [itemsText, writeItems, Text.join_cons (by rw [writeItems]; exact List.cons_ne_nil _ _),
    String.toList_ofList]
  rfl

theorem fieldsText_one (key : String) (x : Datum) : fieldsText l depth middle [(key, x)] =
    '"' :: (key.toList.flatMap escapeChar ++
      '"' :: ':' :: ' ' :: (writeAt l (depth + 1) x).toList) := by
  simp [fieldsText, writeFields, Text.join, escaped]

theorem fieldsText_cons (key : String) (x : Datum) (f : String × Datum)
    (fs : List (String × Datum)) : fieldsText l depth middle ((key, x) :: f :: fs) =
      '"' :: (key.toList.flatMap escapeChar ++ '"' :: ':' :: ' ' ::
        ((writeAt l (depth + 1) x).toList ++
          (',' :: (middle ++ fieldsText l depth middle (f :: fs))))) := by
  obtain ⟨key', y⟩ := f
  rw [fieldsText, writeFields, Text.join_cons (by rw [writeFields]; exact List.cons_ne_nil _ _),
    String.toList_ofList]
  simp [fieldsText, escaped]

theorem itemsText_head (l : Layout) (depth : Nat) (middle : List Char) {xs : List Datum}
    (h : Datum.ExactItems xs) (hne : xs ≠ []) :
    ∃ c cs, itemsText l depth middle xs = c :: cs ∧ isSpace c = false ∧ c ≠ ']' := by
  cases xs with
  | nil => exact absurd rfl hne
  | cons x xs =>
    obtain ⟨c, cs, hcs, hc⟩ := writeAt_head l (depth + 1) h.1
    cases xs with
    | nil => exact ⟨c, cs, by rw [itemsText_one, hcs], hc⟩
    | cons y xs => exact ⟨c, _, by rw [itemsText_cons, hcs, List.cons_append], hc⟩

theorem fieldsText_head (l : Layout) (depth : Nat) (middle : List Char)
    {fs : List (String × Datum)} (hne : fs ≠ []) :
    ∃ cs, fieldsText l depth middle fs = '"' :: cs := by
  cases fs with
  | nil => exact absurd rfl hne
  | cons f fs =>
    cases fs with
    | nil => exact ⟨_, fieldsText_one f.1 f.2⟩
    | cons f' fs => exact ⟨_, fieldsText_cons f.1 f.2 f' fs⟩

theorem writeAt_list {xs : List Datum} (hne : xs ≠ []) (hb : Blanks l depth first middle last) :
    (writeAt l depth (.list xs)).toList =
      '[' :: (first ++ (itemsText l depth middle xs ++ (last ++ [']']))) := by
  have hparts : writeItems l (depth + 1) xs ≠ [] := by
    cases xs with
    | nil => exact absurd rfl hne
    | cons x xs => rw [writeItems]; exact List.cons_ne_nil _ _
  rw [writeAt, bracket_toList hb _ _ hparts]
  simp [itemsText]

theorem writeAt_object {fs : List (String × Datum)} (hne : fs ≠ [])
    (hb : Blanks l depth first middle last) : (writeAt l depth (.object fs)).toList =
      '\x7b' :: (first ++ (fieldsText l depth middle fs ++ (last ++ ['\x7d']))) := by
  have hparts : writeFields l (depth + 1) fs ≠ [] := by
    cases fs with
    | nil => exact absurd rfl hne
    | cons f fs => obtain ⟨key, x⟩ := f; rw [writeFields]; exact List.cons_ne_nil _ _
  rw [writeAt, bracket_toList hb _ _ hparts]
  simp [fieldsText]

/-- Reading the last item of a list. -/
theorem items_last {x : Datum} {cs : List Char} {p₁ : Nat} (hb : Blanks l depth first middle last)
    (hx : value fuel p cs = .ok (x, p₁, last ++ ']' :: rest)) :
    ∃ p', items (fuel + 1) p cs = .ok ([x], p', rest) := by
  refine ⟨p₁ + last.length + 1, ?_⟩
  rw [items, hx]
  simp only [bind, Except.bind, skipSpace_append hb.after, skipSpace_cons (rfl : isSpace ']' = false)]
  rfl

/-- Reading an item before others. -/
theorem items_more {x : Datum} {xs : List Datum} {cs more : List Char} {c : Char} {p₁ : Nat}
    (hb : Blanks l depth first middle last) (hc : isSpace c = false)
    (hx : value fuel p cs = .ok (x, p₁, ',' :: (middle ++ c :: more)))
    (hxs : ∀ p, ∃ p', items fuel p (c :: more) = .ok (xs, p', rest)) :
    ∃ p', items (fuel + 1) p cs = .ok (x :: xs, p', rest) := by
  obtain ⟨p', hxs⟩ := hxs (p₁ + 1 + middle.length)
  refine ⟨p', ?_⟩
  rw [items, hx]
  simp only [bind, Except.bind, skipSpace_cons (rfl : isSpace ',' = false),
    skipSpace_append hb.between, skipSpace_cons hc, hxs]
  rfl

/-- Reading the key of a field, and what stands between it and the value. -/
theorem fields_key (fuel p : Nat) (key : String) (acc : List (String × Datum)) (cs : List Char)
    {c : Char} (hc : isSpace c = false) :
    ∃ p₁, fields (fuel + 1) acc p ('"' :: (key.toList.flatMap escapeChar ++
        '"' :: ':' :: ' ' :: c :: cs)) = (do
      let (item, p, cs) ← value fuel p₁ (c :: cs)
      let acc := Assoc.put key item acc
      match skipSpace p cs with
      | (p, '\x7d' :: cs) => return (acc, p + 1, cs)
      | (p, ',' :: cs) =>
        let (p, cs) := skipSpace (p + 1) cs
        fields fuel acc p cs
      | (p, _) => .error (.fault .comma p)) := by
  obtain ⟨p₀, h⟩ := textFrom_escaped (p := p + 1) key p (':' :: ' ' :: c :: cs)
  have hblank : skipSpace (p₀ + 1) (' ' :: c :: cs) = (p₀ + 2, c :: cs) :=
    (skipSpace_append (show ∀ c ∈ [' '], isSpace c = true by simp [isSpace]) (p₀ + 1)
      (c :: cs)).trans
      (skipSpace_cons hc _ cs)
  refine ⟨p₀ + 2, ?_⟩
  rw [fields, h]
  simp only [bind, Except.bind, skipSpace_cons (rfl : isSpace ':' = false), hblank] <;> rfl

/-- Reading a list that is not empty. -/
theorem value_list {xs : List Datum} (hd : Datum.ExactItems xs) (hne : xs ≠ [])
    (hb : Blanks l depth first middle last)
    (h : ∀ p, ∃ p', items fuel p (itemsText l depth middle xs ++ (last ++ ']' :: rest)) =
      .ok (xs, p', rest)) :
    ∃ p', value (fuel + 1) p ((writeAt l depth (.list xs)).toList ++ rest) =
      .ok (.list xs, p', rest) := by
  obtain ⟨c, cs, hcs, hspace, hclose⟩ := itemsText_head l depth middle hd hne
  obtain ⟨p', h⟩ := h (p + 1 + first.length)
  refine ⟨p', ?_⟩
  have htext : (writeAt l depth (.list xs)).toList ++ rest =
      '[' :: (first ++ (itemsText l depth middle xs ++ (last ++ ']' :: rest))) := by
    rw [writeAt_list hne hb]
    simp
  rw [hcs, List.cons_append] at h htext
  rw [htext, value, skipSpace_append hb.before, skipSpace_cons hspace]
  split
  · next heq => cases heq; exact absurd rfl hclose
  · next heq =>
    cases heq
    rw [h]
    rfl

/-- Reading an object that is not empty. -/
theorem value_object {fs : List (String × Datum)} (hne : fs ≠ [])
    (hb : Blanks l depth first middle last)
    (h : ∀ p, ∃ p', fields fuel [] p (fieldsText l depth middle fs ++ (last ++ '\x7d' :: rest)) =
      .ok (fs, p', rest)) :
    ∃ p', value (fuel + 1) p ((writeAt l depth (.object fs)).toList ++ rest) =
      .ok (.object fs, p', rest) := by
  obtain ⟨cs, hcs⟩ := fieldsText_head l depth middle hne
  obtain ⟨p', h⟩ := h (p + 1 + first.length)
  refine ⟨p', ?_⟩
  have htext : (writeAt l depth (.object fs)).toList ++ rest =
      '\x7b' :: (first ++ (fieldsText l depth middle fs ++ (last ++ '\x7d' :: rest))) := by
    rw [writeAt_object hne hb]
    simp
  rw [hcs, List.cons_append] at h htext
  rw [htext, value, skipSpace_append hb.before, skipSpace_cons (rfl : isSpace '"' = false)]
  split
  · next heq => cases heq
  · next heq =>
    cases heq
    rw [h]
    rfl

theorem exists_fuel (l : Layout) (depth fuel : Nat) {d : Datum} (h : d.Exact)
    (hf : (writeAt l depth d).toList.length ≤ fuel) : ∃ fuel', fuel = fuel' + 1 := by
  obtain ⟨c, cs, hcs, -⟩ := writeAt_head l depth h
  exact Nat.exists_eq_add_one.mpr (Nat.lt_of_lt_of_le (by rw [hcs]; exact Nat.succ_pos _) hf)

mutual

/-- **Reading a written value** gives the value back. -/
theorem value_writeAt (l : Layout) : ∀ (d : Datum) (depth fuel p : Nat) (rest : List Char),
    d.Exact → (writeAt l depth d).toList.length ≤ fuel + 1 → Ends rest →
    ∃ p', value (fuel + 1) p ((writeAt l depth d).toList ++ rest) = .ok (d, p', rest)
  | .null, _, _, _, _, _, _, _ => value_word (.inl rfl)
  | .bool true, _, _, _, _, _, _, _ => value_word (.inr (.inl rfl))
  | .bool false, _, _, _, _, _, _, _ => value_word (.inr (.inr rfl))
  | .int _, _, _, _, _, hd, _, he => value_int hd he
  | .text s, _, _, _, _, _, _, _ => value_text s
  | .list xs, depth, fuel, p, rest, hd, hf, he => by
    by_cases hne : xs = []
    · subst hne
      exact ⟨p + 2, by simp [writeAt, writeItems, Layout.bracket, value, skipSpace, isSpace]⟩
    · obtain ⟨first, middle, last, hb⟩ := exists_blanks l depth
      rw [writeAt_list hne hb] at hf
      simp only [List.length_append, List.length_cons] at hf
      exact value_list hd hne hb fun p =>
        items_writeItems l xs _ _ p _ _ _ _ hne hd (by omega) hb
  | .object fs, depth, fuel, p, rest, hd, hf, he => by
    by_cases hne : fs = []
    · subst hne
      exact ⟨p + 2, by simp [writeAt, writeFields, Layout.bracket, value, skipSpace, isSpace]⟩
    · obtain ⟨first, middle, last, hb⟩ := exists_blanks l depth
      rw [writeAt_object hne hb] at hf
      simp only [List.length_append, List.length_cons] at hf
      exact value_object hne hb fun p =>
        fields_writeFields l fs hne [] _ _ p _ _ _ _ hd.2 hd.1 (by omega) hb

/-- Reading the written items of a list up to its end. -/
theorem items_writeItems (l : Layout) : ∀ (xs : List Datum) (depth fuel p : Nat)
    (rest first middle last : List Char), xs ≠ [] → Datum.ExactItems xs →
    (itemsText l depth middle xs).length < fuel → Blanks l depth first middle last →
    ∃ p', items fuel p (itemsText l depth middle xs ++ (last ++ ']' :: rest)) = .ok (xs, p', rest)
  | [], _, _, _, _, _, _, _, hne, _, _, _ => (hne rfl).elim
  | _, _, 0, _, _, _, _, _, _, _, hf, _ => absurd hf (Nat.not_lt_zero _)
  | [x], depth, fuel + 1, p, rest, first, middle, last, _, hd, hf, hb => by
    rw [itemsText_one] at hf ⊢
    obtain ⟨fuel, rfl⟩ := exists_fuel l _ _ hd.1 (Nat.le_of_lt_succ hf)
    obtain ⟨p₁, hx⟩ := value_writeAt l x _ _ p _ hd.1 (Nat.le_of_lt_succ hf)
      (hb.ends ']' rest (.inl rfl))
    exact items_last hb hx
  | x :: y :: ys, depth, fuel + 1, p, rest, first, middle, last, _, hd, hf, hb => by
    rw [itemsText_cons] at hf ⊢
    simp only [List.length_append, List.length_cons] at hf
    obtain ⟨fuel, rfl⟩ := exists_fuel l (depth + 1) fuel hd.1 (by omega)
    obtain ⟨c, cs, hcs, hspace, -⟩ :=
      itemsText_head l depth middle hd.2 (List.cons_ne_nil y ys)
    obtain ⟨p₁, hx⟩ := value_writeAt l x (depth + 1) fuel p
      (',' :: (middle ++ (itemsText l depth middle (y :: ys) ++ (last ++ ']' :: rest))))
      hd.1 (by omega) (.cons (.inl rfl) _)
    have hys := fun p => items_writeItems l (y :: ys) depth (fuel + 1) p rest _ _ _
      (List.cons_ne_nil y ys) hd.2 (by omega) hb
    rw [hcs, List.cons_append] at hys hx
    rw [hcs, List.append_assoc, List.cons_append, List.append_assoc, List.cons_append]
    exact items_more hb hspace hx hys

/-- Reading the written fields of an object up to its end. -/
theorem fields_writeFields (l : Layout) : ∀ (fs : List (String × Datum)), fs ≠ [] →
    ∀ (acc : List (String × Datum)) (depth fuel p : Nat) (rest first middle last : List Char),
    Datum.ExactFields fs → (Assoc.keys (acc ++ fs)).Nodup →
    (fieldsText l depth middle fs).length < fuel → Blanks l depth first middle last →
    ∃ p', fields fuel acc p (fieldsText l depth middle fs ++ (last ++ '\x7d' :: rest)) =
      .ok (acc ++ fs, p', rest)
  | [], hne => (hne rfl).elim
  | (key, x) :: fs, _ => by
    have ih := fields_writeFields l fs
    intro acc depth fuel p rest first middle last hd hnodup hf hb
    obtain ⟨fuel, rfl⟩ := Nat.exists_eq_add_one.mpr (Nat.zero_lt_of_lt hf)
    have hvalue := fun fuel p rest =>
      value_writeAt l x (depth + 1) fuel p rest hd.1
    obtain ⟨c, cs, hcs, hspace, -⟩ := writeAt_head l (depth + 1) hd.1
    have hkey : key ∉ Assoc.keys acc := fun hmem => by
      rw [Assoc.keys, List.map_append, List.map_cons, List.nodup_append] at hnodup
      exact hnodup.2.2 key hmem key List.mem_cons_self rfl
    cases fs with
    | nil =>
      rw [fieldsText_one] at hf ⊢
      simp only [List.length_append, List.length_cons] at hf
      obtain ⟨fuel, rfl⟩ := exists_fuel l (depth + 1) fuel hd.1 (by omega)
      rw [hcs] at hvalue ⊢
      obtain ⟨p₁, hfields⟩ := fields_key (fuel + 1) p key acc
        (cs ++ (last ++ '\x7d' :: rest)) hspace
      obtain ⟨p₂, hx⟩ := hvalue fuel p₁ (last ++ '\x7d' :: rest) (by rw [hcs] at hf; omega)
        (hb.ends '\x7d' rest (.inr rfl))
      simp only [List.cons_append, List.append_assoc] at hx hfields ⊢
      refine ⟨p₂ + last.length + 1, ?_⟩
      rw [hfields, hx]
      simp only [bind, Except.bind, skipSpace_append hb.after,
        skipSpace_cons (rfl : isSpace '\x7d' = false), Assoc.put_new hkey]
      rfl
    | cons f fs =>
      rw [fieldsText_cons] at hf ⊢
      simp only [List.length_append, List.length_cons] at hf
      obtain ⟨fuel, rfl⟩ := exists_fuel l (depth + 1) fuel hd.1 (by omega)
      rw [hcs] at hvalue ⊢
      obtain ⟨more, hmore⟩ :=
        fieldsText_head l depth middle (List.cons_ne_nil f fs)
      obtain ⟨p₁, hfields⟩ := fields_key (fuel + 1) p key acc (cs ++ ',' ::
        (middle ++ (fieldsText l depth middle (f :: fs) ++ (last ++ '\x7d' :: rest)))) hspace
      obtain ⟨p₂, hx⟩ := hvalue fuel p₁
        (',' :: (middle ++ (fieldsText l depth middle (f :: fs) ++ (last ++ '\x7d' :: rest))))
        (by rw [hcs] at hf; omega) (.cons (.inl rfl) _)
      obtain ⟨p', hrest⟩ := ih (List.cons_ne_nil f fs) (acc ++ [(key, x)]) depth (fuel + 1)
        (p₂ + 1 + middle.length) rest _ _ _ hd.2 (by rw [List.append_assoc]; exact hnodup) (by omega) hb
      refine ⟨p', ?_⟩
      simp only [List.cons_append, List.append_assoc] at hx hfields ⊢
      rw [hfields, hx]
      rw [hmore, List.cons_append] at hrest ⊢
      simp only [bind, Except.bind, skipSpace_cons (rfl : isSpace ',' = false),
        skipSpace_append hb.between, skipSpace_cons (rfl : isSpace '"' = false), Assoc.put_new hkey, hrest]
      simp

end

/-- The characters of written texts: newlines and visible ASCII. -/
def Shown (c : Char) : Prop := c = '\n' ∨ (32 ≤ c.toNat ∧ c.toNat < 127)

instance (c : Char) : Decidable (Shown c) := inferInstanceAs (Decidable (_ ∨ _))

/-- A text shows when all its characters are found to. -/
theorem shown_of_all {s : String} (h : (s.toList.all fun c => decide (Shown c)) = true) :
    ∀ c ∈ s.toList, Shown c := fun c hc => of_decide_eq_true (List.all_eq_true.mp h c hc)

theorem shown_hexDigits : ∀ (width n : Nat), ∀ c ∈ Text.hexDigits width n, Shown c
  | 0, _, _, h => (List.not_mem_nil h).elim
  | width + 1, n, c, h => by
    have hdigit : ∀ k : Fin 16, 32 ≤ (Text.hexDigit k).toNat ∧ (Text.hexDigit k).toNat < 127 := by
      decide
    rw [Text.hexDigits, List.mem_append, List.mem_singleton] at h
    rcases h with h | rfl
    · exact shown_hexDigits width _ c h
    · exact .inr (hdigit ⟨n % 16, Nat.mod_lt n (by decide)⟩)

theorem shown_unicodeEscape (n : Nat) : ∀ c ∈ unicodeEscape n, Shown c := by
  intro c h
  rw [unicodeEscape, List.mem_cons, List.mem_cons] at h
  rcases h with rfl | rfl | h
  · exact .inr (by decide)
  · exact .inr (by decide)
  · exact shown_hexDigits 4 n c h

theorem shown_escapeChar (c : Char) : ∀ x ∈ escapeChar c, Shown x := by
  have two : ∀ a : Char, (32 ≤ a.toNat ∧ a.toNat < 127) → ∀ x ∈ ['\\', a], Shown x := by
    intro a ha x hx
    rw [List.mem_cons, List.mem_singleton] at hx
    rcases hx with rfl | rfl
    · exact .inr (by decide)
    · exact .inr ha
  unfold escapeChar
  dsimp only
  split
  · exact two '"' (by decide)
  split
  · exact two '\\' (by decide)
  split
  · exact two 'n' (by decide)
  split
  · exact two 'r' (by decide)
  split
  · exact two 't' (by decide)
  split
  · exact two 'b' (by decide)
  split
  · exact two 'f' (by decide)
  split
  · next h => exact fun x hx => .inr (List.mem_singleton.mp hx ▸ h)
  split
  · exact shown_unicodeEscape _
  · intro x hx
    rcases List.mem_append.mp hx with h | h
    · exact shown_unicodeEscape _ x h
    · exact shown_unicodeEscape _ x h

theorem shown_escaped (s : String) : ∀ c ∈ (escaped s).toList, Shown c := by
  intro c h
  rw [escaped, String.toList_ofList, List.mem_append, List.mem_cons, List.mem_flatMap,
    List.mem_singleton] at h
  rcases h with (rfl | ⟨x, -, h⟩) | rfl
  · exact .inr (by decide)
  · exact shown_escapeChar x c h
  · exact .inr (by decide)

theorem shown_intText (n : Int) : ∀ c ∈ (Decimal.intText n).toList, Shown c := by
  have hdigits : ∀ c ∈ Decimal.natChars n.natAbs, Shown c := fun c hc => by
    have := natChars_digit c hc
    rw [Char.isDigit_iff_toNat] at this
    exact .inr ⟨Nat.le_trans (by decide) this.1, Nat.lt_of_le_of_lt this.2 (by decide)⟩
  unfold Decimal.intText
  split
  · rw [String.toList_ofList]
    intro c hc
    rcases List.mem_cons.mp hc with rfl | hc
    · exact .inr (by decide)
    · exact hdigits c hc
  · rw [String.toList_ofList]
    exact hdigits

theorem shown_join {sep : String} (hsep : ∀ c ∈ sep.toList, Shown c) : ∀ (parts : List String),
    (∀ part ∈ parts, ∀ c ∈ part.toList, Shown c) → ∀ c ∈ (Text.join sep parts).toList, Shown c
  | [], _ => by simp [Text.join]
  | [part], h => by simpa [Text.join] using h
  | part :: part' :: parts, h => by
    have ih := shown_join hsep (part' :: parts) fun x hx => h x (List.mem_cons_of_mem _ hx)
    intro c hc
    rw [Text.join_cons (List.cons_ne_nil _ _), List.mem_append, List.mem_append] at hc
    rcases hc with hc | hc | hc
    · exact h part List.mem_cons_self c hc
    · exact hsep c hc
    · exact ih c hc

theorem shown_bracket {opening closing : String} {parts : List String}
    (ho : ∀ c ∈ opening.toList, Shown c) (hc : ∀ c ∈ closing.toList, Shown c)
    (h : ∀ part ∈ parts, ∀ c ∈ part.toList, Shown c) :
    ∀ c ∈ (fileLayout.bracket depth opening closing parts).toList, Shown c := by
  have hblank : ∀ n, ∀ c ∈ '\n' :: List.replicate n ' ', Shown c := fun n c hc => by
    rcases List.mem_cons.mp hc with rfl | hc
    · exact .inl rfl
    · rw [List.eq_of_mem_replicate hc]; exact .inr (by decide)
  have happend : ∀ s t : String, (∀ c ∈ s.toList, Shown c) → (∀ c ∈ t.toList, Shown c) →
      ∀ c ∈ (s ++ t).toList, Shown c := fun s t hs ht c hc => by
    rw [String.toList_append, List.mem_append] at hc
    exact hc.elim (hs c) (ht c)
  have hinner : ∀ n, ∀ c ∈ ("\n" ++ String.ofList (List.replicate n ' ')).toList, Shown c :=
    fun n c hc => hblank n c (by simpa using hc)
  unfold Layout.bracket
  split
  · exact happend _ _ ho hc
  · refine happend _ _ (happend _ _ (happend _ _ (happend _ _ ho (hinner _)) ?_) (hinner _)) hc
    exact shown_join (happend _ _ (shown_of_all (by decide)) (hinner _)) _ h

mutual

/-- What is written is visible ASCII and newlines. -/
theorem shown_writeAt : ∀ (d : Datum) {depth : Nat}, d.Exact →
    ∀ c ∈ (writeAt fileLayout depth d).toList, Shown c
  | .null, _, _ => by
    rw [writeAt]
    exact shown_of_all (by decide)
  | .bool b, _, _ => by
    rw [writeAt]
    cases b
    · exact shown_of_all (by decide)
    · exact shown_of_all (by decide)
  | .int n, _, _ => shown_intText n
  | .text s, _, _ => shown_escaped s
  | .list xs, _, hd =>
    shown_bracket (shown_of_all (by decide)) (shown_of_all (by decide)) (shown_writeItems xs hd)
  | .object fs, _, hd =>
    shown_bracket (shown_of_all (by decide)) (shown_of_all (by decide)) (shown_writeFields fs hd.2)

/-- What is written of items is visible ASCII and newlines. -/
theorem shown_writeItems : ∀ (xs : List Datum) {depth : Nat}, Datum.ExactItems xs →
    ∀ part ∈ writeItems fileLayout depth xs, ∀ c ∈ part.toList, Shown c
  | [], _, _ => by simp [writeItems]
  | x :: xs, _, hd => by
    intro part hpart
    rw [writeItems, List.mem_cons] at hpart
    rcases hpart with rfl | hpart
    · exact shown_writeAt x hd.1
    · exact shown_writeItems xs hd.2 part hpart

/-- What is written of fields is visible ASCII and newlines. -/
theorem shown_writeFields : ∀ (fs : List (String × Datum)) {depth : Nat}, Datum.ExactFields fs →
    ∀ part ∈ writeFields fileLayout depth fs, ∀ c ∈ part.toList, Shown c
  | [], _, _ => by simp [writeFields]
  | (key, x) :: fs, _, hd => by
    intro part hpart
    rw [writeFields, List.mem_cons] at hpart
    rcases hpart with rfl | hpart
    · intro c hc
      rw [String.toList_append, String.toList_append, List.mem_append, List.mem_append] at hc
      rcases hc with (hc | hc) | hc
      · exact shown_escaped key c hc
      · exact shown_of_all (by decide) c hc
      · exact shown_writeAt x hd.1 c hc
    · exact shown_writeFields fs hd.2 part hpart

end

/-- A written file has only newlines and visible ASCII. -/
theorem shown_write {d : Datum} (h : d.Exact) : ∀ c ∈ (write fileLayout d).toList, Shown c :=
  shown_writeAt d h

/-- **Reading a written file** gives the value back. -/
theorem read_write {d : Datum} (h : d.Exact) : read (write fileLayout d) = .ok d := by
  obtain ⟨c, cs, hcs, hspace, -⟩ := writeAt_head fileLayout 0 h
  have hc : Shown c := shown_write h c (by rw [write, hcs]; exact List.mem_cons_self)
  have hmark : (write fileLayout d).toList.head? ≠ some (Char.ofNat 0xFEFF) := by
    rw [write, hcs, List.head?_cons]
    intro e
    obtain rfl := Option.some.inj e
    rcases hc with hc | hc
    · exact absurd hc (by decide)
    · exact absurd hc.2 (by decide)
  obtain ⟨p', hvalue⟩ := value_writeAt fileLayout d 0
    (2 * (write fileLayout d).toList.length + 1) 0 [] h (by rw [write]; omega) .nil
  rw [List.append_nil] at hvalue
  have hskip : skipSpace 0 (write fileLayout d).toList = (0, (write fileLayout d).toList) := by
    rw [write, hcs]
    exact skipSpace_cons hspace 0 cs
  rw [read, if_neg hmark, hskip]
  dsimp only
  rw [show value (2 * (write fileLayout d).toList.length + 2) 0 (write fileLayout d).toList =
    .ok (d, p', []) from hvalue]
  rfl

end Json
end TweakEngine
