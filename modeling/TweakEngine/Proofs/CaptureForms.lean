/-
# Captures in files

What was captured of a tweak is written to its snapshot and read back as it was
(`Snapshot.Store.restoreAll_on`): a value by its kind, a service by the labels of its start
type and its state, and each capture under the position of its operation.
-/

import TweakEngine.Snapshot.Store
import TweakEngine.Proofs.Actions
import TweakEngine.Proofs.Base64Read
import TweakEngine.Proofs.JsonValues
import TweakEngine.Proofs.TweakRuns
import Mathlib.Algebra.Group.Nat.Defs

namespace TweakEngine

/-! ## Labels and values -/

theorem ValueKind.parse?_label (k : ValueKind) : Labelled.parse? k.label = some k := by
  cases k <;> decide +kernel

theorem StartupType.parse?_label (t : StartupType) : Labelled.parse? t.label = some t := by
  cases t <;> decide +kernel

theorem StartupType.ofDatum_label (t : StartupType) : ofDatum (.text t.label) = t := by
  show (Labelled.parse? t.label).getD unknown = t
  rw [t.parse?_label]
  rfl

theorem RunState.ofDatum_label (s : RunState) : ofDatum (.text s.label) = s := by
  have h : Labelled.parse? s.label = some s := by cases s <;> decide +kernel
  show (Labelled.parse? s.label).getD unknown = s
  rw [h]
  rfl

/-- A natural number of a few digits is held exactly. -/
theorem Datum.exact_nat {n : Nat} (h : n < 10 ^ 20) : (Datum.int n).Exact := by
  have hlen : (Nat.toDigits 10 n).length ≤ 20 :=
    (Nat.length_toDigits_le_iff (by decide) (by decide)).mpr h
  rw [Datum.Exact, Int.natAbs_natCast, Decimal.natChars]
  exact Nat.le_trans hlen (by decide)

theorem Datum.exactItems_texts : ∀ (lines : List String), Datum.ExactItems (lines.map .text)
  | [] => trivial
  | _ :: lines => ⟨trivial, exactItems_texts lines⟩

namespace RegistryValue

theorem toJson_exact (v : RegistryValue) : v.toJson.Exact := by
  cases v with
  | string | expandString | binary => trivial
  | dword n => exact Datum.exact_nat (Nat.lt_trans n.isLt (by decide))
  | qword n => exact Datum.exact_nat (Nat.lt_trans n.isLt (by decide))
  | multiString lines => exact Datum.exactItems_texts lines

theorem fits_toNat {w : Nat} (n : BitVec w) : fits w n.toNat = true := by
  rw [fits, Bool.and_eq_true, decide_eq_true_eq, decide_eq_true_eq]
  constructor
  · omega
  · exact Int.ofNat_lt.mpr n.isLt

theorem coercePlain_dword (n : BitVec 32) : coercePlain (.int n.toNat) .dword = .ok (.dword n) := by
  have hn : integerOf (.int n.toNat) .dword = .ok n.toNat := rfl
  rw [coercePlain, hn, ok_bind, if_pos (fits_toNat n), BitVec.ofInt_natCast, BitVec.ofNat_toNat,
    BitVec.setWidth_eq]
  rfl

theorem coercePlain_qword (n : BitVec 64) : coercePlain (.int n.toNat) .qword = .ok (.qword n) := by
  have hn : integerOf (.int n.toNat) .qword = .ok n.toNat := rfl
  rw [coercePlain, hn, ok_bind, if_pos (fits_toNat n), BitVec.ofInt_natCast, BitVec.ofNat_toNat,
    BitVec.setWidth_eq]
  rfl

theorem map_display_texts (lines : List String) :
    (lines.map Datum.text).map Datum.display = lines := by
  rw [List.map_map]
  exact (List.map_congr_left fun _ _ => rfl).trans (List.map_id lines)

theorem coercePlain_toJson (v : RegistryValue) : coercePlain v.toJson v.kind = .ok v := by
  cases v with
  | string | expandString => rfl
  | dword n => exact coercePlain_dword n
  | qword n => exact coercePlain_qword n
  | binary bytes => rw [toJson, kind, coercePlain, Base64.decode_encode]
  | multiString lines => rw [toJson, kind, coercePlain, map_display_texts]

/-- **A value in a file** is read back by its kind. -/
theorem coerce_toJson (v : RegistryValue) : coerce v.toJson v.kind = .ok (some v) := by
  have hplain : coerce v.toJson v.kind = some <$> coercePlain v.toJson v.kind := by
    cases v <;> simp only [coerce, toJson]
  rw [hplain, coercePlain_toJson]
  rfl

end RegistryValue

/-! ## Positions -/

namespace Decimal

/-- Where the digits of base ten stand among the characters. -/
theorem toNat_of_isDigit {c : Char} (h : c.isDigit = true) : 48 ≤ c.toNat ∧ c.toNat ≤ 57 := by
  rw [Char.isDigit, Bool.and_eq_true, decide_eq_true_eq, decide_eq_true_eq] at h
  exact ⟨UInt32.le_iff_toNat_le.mp h.1, UInt32.le_iff_toNat_le.mp h.2⟩

theorem isNumeralBlank_of_isDigit {c : Char} (h : c.isDigit = true) : isNumeralBlank c = false := by
  obtain ⟨hlow, hhigh⟩ := toNat_of_isDigit h
  have h₁ : decide (c.toNat ≤ 13) = false := decide_eq_false (by omega)
  have h₂ : (c.toNat == 32) = false := by rw [beq_eq_false_iff_ne]; omega
  have h₃ : decide (128 ≤ c.toNat) = false := decide_eq_false (by omega)
  simp only [isNumeralBlank, h₁, h₂, h₃, Bool.and_false, Bool.false_and, Bool.or_false]

theorem digitIn?_of_isDigit {c : Char} (h : c.isDigit = true) : digitIn? 10 c = some (c.toNat - 48) := by
  obtain ⟨hlow, hhigh⟩ := toNat_of_isDigit h
  have hdigit : Text.decimalDigit? c = some (c.toNat - 48) := by
    rw [Text.decimalDigit?, if_pos (by omega), if_pos h]
  have hlt : decide (c.toNat - 48 < 10) = true := decide_eq_true (by omega)
  rw [digitIn?, hdigit]
  exact Option.filter_some_pos hlt

theorem ne_of_isDigit {c d : Char} (h : c.isDigit = true) (hd : d.isDigit = false) : c ≠ d := fun e => by
  rw [e, hd] at h
  cases h

theorem digitsValue_digits : ∀ {cs : List Char} {after : Bool} {acc : Nat},
    (∀ c ∈ cs, c.isDigit = true) → after = true ∨ cs ≠ [] →
    digitsValue 10 after acc cs = some (Nat.ofDigitChars 10 cs acc)
  | [], after, acc, _, h => by
    rcases h with rfl | h
    · rw [Nat.ofDigitChars_nil]; rfl
    · exact absurd rfl h
  | c :: cs, after, acc, hcs, _ => by
    have hc := hcs c List.mem_cons_self
    rw [digitsValue, if_neg (ne_of_isDigit hc rfl), digitIn?_of_isDigit hc]
    dsimp only
    rw [digitsValue_digits (fun c' hc' => hcs c' (List.mem_cons_of_mem _ hc')) (.inl rfl),
      Nat.ofDigitChars_cons, Nat.mul_comm]
    rfl

theorem trimNumeral_digits {cs : List Char} (h : ∀ c ∈ cs, c.isDigit = true) : trimNumeral cs = cs := by
  have hkeep : ∀ {ds : List Char}, (∀ c ∈ ds, c.isDigit = true) → ds.dropWhile isNumeralBlank = ds := by
    intro ds hds
    cases ds with
    | nil => rfl
    | cons d ds =>
      rw [List.dropWhile_cons, isNumeralBlank_of_isDigit (hds d List.mem_cons_self),
        if_neg Bool.false_ne_true]
  rw [trimNumeral, hkeep h, hkeep fun c hc => h c (List.mem_reverse.mp hc), List.reverse_reverse]

theorem toString_inj {m n : Nat} (h : toString m = toString n) : m = n := by
  have hdigits : Nat.toDigits 10 m = Nat.toDigits 10 n :=
    Nat.toList_repr.symm.trans ((congrArg String.toList h).trans Nat.toList_repr)
  rw [← Nat.ofDigitChars_ten_toDigits (n := m), hdigits, Nat.ofDigitChars_ten_toDigits]

/-- Reading a written natural number that is not too long. -/
theorem readInt_toString {n : Nat} (h : (natChars n).length ≤ maxDigits) :
    readInt (toString n) = .ok n := by
  have hchars : (toString n).toList = natChars n := Nat.toList_repr
  have hne : natChars n ≠ [] := Nat.toDigits_ne_nil
  have hsign : takeSign (natChars n) = (false, natChars n) := by
    obtain ⟨c, cs, hcs⟩ := List.exists_cons_of_ne_nil hne
    have hc : c.isDigit = true := Json.natChars_digit (n := n) c (hcs ▸ List.mem_cons_self)
    rw [hcs, takeSign]
    · exact fun _ e => ne_of_isDigit hc rfl (List.cons.inj e).1
    · exact fun _ e => ne_of_isDigit hc rfl (List.cons.inj e).1
  have hcount : (natChars n).filter (· ≠ '_') = natChars n :=
    List.filter_eq_self.mpr fun c hc => decide_eq_true (ne_of_isDigit (Json.natChars_digit c hc) rfl)
  rw [readInt, hchars, trimNumeral_digits Json.natChars_digit, hsign]
  dsimp only
  rw [digitsValue_digits Json.natChars_digit (.inr hne), natChars, Nat.ofDigitChars_ten_toDigits]
  dsimp only
  rw [← natChars, hcount, if_neg (Nat.not_lt.mpr h)]
  rfl

end Decimal

/-! ## Captures -/

/-- A capture of a missing value holds no content. -/
def RegistryCapture.Tidy (c : RegistryCapture) : Prop := c.existed = false → c.value = none

/-- A capture of a service holds its state. -/
def ServiceCapture.Tidy (c : ServiceCapture) : Prop := c.state.isSome = true

/-- A capture of a file holds a text or nothing. -/
def FileCapture.Tidy (c : FileCapture) : Prop := c.content.IsOptionalText

theorem RegistryCapture.tidy_of (existed : Bool) (value : Option RegistryValue) (keyExisted : Bool) :
    (RegistryCapture.of existed value keyExisted).Tidy := by
  intro h
  rw [RegistryCapture.of] at h ⊢
  dsimp only at h ⊢
  rw [h]
  rfl

theorem Datum.IsOptionalText.exact {d : Datum} (h : d.IsOptionalText) : d.Exact := by
  rcases h with rfl | ⟨s, rfl⟩ <;> trivial

namespace Snapshot.Store

theorem registryDatum_exact (c : RegistryCapture) : (registryDatum c).Exact := by
  refine ⟨by simp [Assoc.keys], trivial, trivial, ?_, ?_, trivial⟩
  · cases c.value with
    | none => trivial
    | some v => exact v.toJson_exact
  · cases c.value <;> trivial

theorem serviceDatum_exact (c : ServiceCapture) : (serviceDatum c).Exact := by
  refine ⟨by simp [Assoc.keys], trivial, ?_, trivial⟩
  cases c.state <;> trivial

theorem fileDatum_exact {c : FileCapture} (h : c.Tidy) : (fileDatum c).Exact :=
  ⟨by simp [Assoc.keys], trivial, Datum.IsOptionalText.exact h, trivial⟩

/-- A capture in the registry is read back, whatever its operation is about. -/
theorem registryCapture_datum (op : RegistryOperation) {c : RegistryCapture} (h : c.Tidy) :
    registryCapture op (registryDatum c) = .ok c := by
  obtain ⟨existed, keyExisted, value⟩ := c
  have hof : RegistryCapture.of existed value keyExisted = ⟨existed, keyExisted, value⟩ := by
    cases existed with
    | true => rfl
    | false => rw [show value = none from h rfl]; rfl
  cases value with
  | none => cases existed <;> cases keyExisted <;> rfl
  | some v =>
    have hnull : v.toJson.isNull = false := by cases v <;> rfl
    have hword : (Datum.text v.kind.label).truthy = true := by cases v.kind <;> decide
    have hkind : (Labelled.ofDatum (.text v.kind.label) : Except Failure ValueKind) =
        .ok v.kind := by
      rw [Labelled.ofDatum, Datum.display, v.kind.parse?_label]
    have hraw : fieldOf (registryDatum ⟨existed, keyExisted, some v⟩) "original_value" =
        .ok v.toJson := rfl
    have hlabel : fieldOf (registryDatum ⟨existed, keyExisted, some v⟩) "original_kind" =
        .ok (.text v.kind.label) := rfl
    rw [registryCapture, hraw, ok_bind, hnull, if_neg Bool.false_ne_true, hlabel, ok_bind,
      if_pos hword, hkind, ok_bind, v.coerce_toJson]
    exact congrArg Except.ok hof

/-- A capture of a service is read back. -/
theorem serviceCapture_datum {c : ServiceCapture} (h : c.Tidy) :
    serviceCapture (serviceDatum c) = .ok c := by
  obtain ⟨startup, state⟩ := c
  obtain ⟨st, rfl⟩ := Option.isSome_iff_exists.mp h
  have hstartup : fieldOf (serviceDatum ⟨startup, some st⟩) "original_startup_type" =
      .ok (.text startup.label) := rfl
  have hstate : fieldOf (serviceDatum ⟨startup, some st⟩) "original_state" =
      .ok (.text st.label) := rfl
  rw [serviceCapture, hstartup, ok_bind, hstate, ok_bind, startup.ofDatum_label, st.ofDatum_label]
  rfl

/-- A capture of a file is read back. -/
theorem fileCapture_datum (c : FileCapture) : fileCapture (fileDatum c) = .ok c := by
  obtain ⟨existed, content⟩ := c
  cases existed <;> rfl

/-- A position that is not too long is read back. -/
theorem position?_toString {i count : Nat} (hi : i < count)
    (hcount : count ≤ 10 ^ Decimal.maxDigits) : position? (toString i) count = some i := by
  have hlen : (Decimal.natChars i).length ≤ Decimal.maxDigits :=
    (Nat.length_toDigits_le_iff (by decide) (by decide)).mpr (Nat.lt_of_lt_of_le hi hcount)
  rw [position?, Decimal.readInt_toString hlen]
  dsimp only
  rw [if_pos ⟨Int.natCast_nonneg i, Int.ofNat_lt.mpr hi⟩]
  rfl

end Snapshot.Store

namespace Captures

variable {α : Type} {c : Captures α} {id : String} {side : Side} {count : Nat}

theorem mem_indexed {e : Nat × α} :
    e ∈ c.indexed id side count ↔ e.1 < count ∧ Assoc.get? ⟨id, side, e.1⟩ c = some e.2 := by
  rw [indexed, List.mem_filterMap]
  constructor
  · rintro ⟨i, hi, h⟩
    obtain ⟨a, ha, rfl⟩ := Option.map_eq_some_iff.mp h
    exact ⟨List.mem_range.mp hi, ha⟩
  · rintro ⟨hi, h⟩
    exact ⟨e.1, List.mem_range.mpr hi, by rw [h]; rfl⟩

/-- Every position has one capture at most. -/
theorem nodup_indexed : ((c.indexed id side count).map Prod.fst).Nodup := by
  have hsub : ((c.indexed id side count).map Prod.fst).Sublist (List.range count) := by
    rw [indexed]
    induction List.range count with
    | nil => exact .slnil
    | cons i is ih =>
      rw [List.filterMap_cons]
      cases Assoc.get? ⟨id, side, i⟩ c with
      | none => exact ih.cons i
      | some a => exact ih.cons_cons i
  exact List.nodup_range.sublist hsub

/-- The capture at a place of the first operations of a tweak. -/
def saved (id : String) (count : Nat) (c : Captures α) (slot : Slot) : Option α :=
  if slot.tweak = id ∧ slot.side = .apply ∧ slot.index < count then Assoc.get? slot c else none

/-- Keeps captures at their positions one after the other. -/
def keepAll (id : String) (es : List (Nat × α)) (c : Captures α) : Captures α :=
  es.foldl (fun c e => (c.keep ⟨id, .apply, e.1⟩ e.2).1) c

theorem get?_keepAll (es : List (Nat × α)) (c : Captures α) (known : Slot → Option α) (slot : Slot)
    (h : ∀ e ∈ es, known ⟨id, .apply, e.1⟩ = some e.2) :
    Assoc.get? slot (keepAll id es c) = (Assoc.get? slot c).or
      (if ∃ e ∈ es, ⟨id, .apply, e.1⟩ = slot then known slot else none) := by
  induction es generalizing c with
  | nil => simp [keepAll]
  | cons e es ih =>
    have hstep : keepAll id (e :: es) c = keepAll id es (c.keep ⟨id, .apply, e.1⟩ e.2).1 := rfl
    rw [hstep, ih _ fun e' he' => h e' (List.mem_cons_of_mem _ he'), get?_keep]
    by_cases he : (⟨id, .apply, e.1⟩ : Slot) = slot
    · have hknown : known slot = some e.2 := he ▸ h e List.mem_cons_self
      have hmem : ∃ e' ∈ e :: es, (⟨id, .apply, e'.1⟩ : Slot) = slot := ⟨e, List.mem_cons_self, he⟩
      rw [if_pos he, if_pos hmem, he, hknown]
      cases Assoc.get? slot c <;> rfl
    · have hmem : (∃ e' ∈ e :: es, (⟨id, .apply, e'.1⟩ : Slot) = slot) ↔
          ∃ e' ∈ es, (⟨id, .apply, e'.1⟩ : Slot) = slot := by
        simp only [List.mem_cons, exists_eq_or_imp, or_iff_right_iff_imp]
        exact fun h => absurd h he
      simp only [if_neg he, hmem]

/-- **Keeping the captures of a tweak** adds those that were missing. -/
theorem get?_keepAll_indexed (d c : Captures α) (slot : Slot) :
    Assoc.get? slot (keepAll id (d.indexed id .apply count) c) =
      (Assoc.get? slot c).or (d.saved id count slot) := by
  rw [get?_keepAll _ _ fun slot => d.saved id count slot]
  · split
    · rfl
    · next hnot =>
      have hnone : d.saved id count slot = none := by
        rw [saved]
        split
        · next hslot =>
          obtain ⟨tweak, side, i⟩ := slot
          obtain ⟨rfl, rfl, hi⟩ := hslot
          cases hd : Assoc.get? ⟨tweak, .apply, i⟩ d with
          | none => rfl
          | some a => exact absurd ⟨(i, a), mem_indexed.mpr ⟨hi, hd⟩, rfl⟩ hnot
        · rfl
      rw [hnone]
  · intro e he
    obtain ⟨hlt, hget⟩ := mem_indexed.mp he
    rw [saved, if_pos ⟨rfl, rfl, hlt⟩, hget]

end Captures

namespace Snapshot.Store

/-- Reading captures that were written by position. -/
theorem restore_on {ω α : Type} (id : String) {ops : List ω} {read : ω → Datum → Except Failure α}
    {form : α → Datum} (hcount : ops.length ≤ 10 ^ Decimal.maxDigits) {es : List (Nat × α)}
    (h : ∀ e ∈ es, e.1 < ops.length ∧ ∀ op, read op (form e.2) = .ok e.2) (c : Captures α) :
    (restore id ops read (es.map fun e => (toString e.1, form e.2))).on c =
      (.ok (), Captures.keepAll id es c) := by
  induction es generalizing c with
  | nil => rfl
  | cons e es ih =>
    obtain ⟨hlt, hread⟩ := h e List.mem_cons_self
    have hop : ops[e.1]? = some ops[e.1] := List.getElem?_eq_getElem hlt
    rw [List.map_cons, restore, position?_toString hlt hcount]
    dsimp only
    rw [hop]
    dsimp only
    rw [Act.on_bind, Act.on_result, hread]
    dsimp only
    rw [Act.on_bind, Act.on_change]
    exact ih (fun e' he' => h e' (List.mem_cons_of_mem _ he')) _

end Snapshot.Store

/-- In an empty table nothing is captured. -/
theorem Captures.forall_nil {α : Type} {P : α → Prop} {id : String} (i : Nat) (a : α)
    (h : Assoc.get? (⟨id, .apply, i⟩ : Slot) [] = some a) : P a :=
  (Option.some_ne_none a h.symm).elim

/-- The captures of a tweak have the form that a file gives back. -/
structure Memory.Tidy (m : Memory) (id : String) : Prop where
  registry : ∀ i c, Assoc.get? ⟨id, .apply, i⟩ m.registry = some c → c.Tidy
  services : ∀ i c, Assoc.get? ⟨id, .apply, i⟩ m.services = some c → c.Tidy
  files : ∀ i c, Assoc.get? ⟨id, .apply, i⟩ m.files = some c → c.Tidy

/-- The captures of a tweak in one memory are added to those of another one. -/
structure Memory.Joined (t : Tweak) (saved m m' : Memory) : Prop where
  registry : ∀ slot, Assoc.get? slot m'.registry = (Assoc.get? slot m.registry).or
    (saved.registry.saved t.id t.operations.registry.length slot)
  services : ∀ slot, Assoc.get? slot m'.services = (Assoc.get? slot m.services).or
    (saved.services.saved t.id t.operations.services.length slot)
  files : ∀ slot, Assoc.get? slot m'.files = (Assoc.get? slot m.files).or
    (saved.files.saved t.id t.operations.files.length slot)

namespace Snapshot.Store

variable {t : Tweak} {saved : Memory}

/-- The keys of a part of a snapshot differ. -/
theorem keys_indexedDatum_nodup {α : Type} (form : α → Datum) {es : List (Nat × α)}
    (h : (es.map Prod.fst).Nodup) :
    (Assoc.keys (es.map fun e => (toString e.1, form e.2))).Nodup := by
  have hkeys : Assoc.keys (es.map fun e => (toString e.1, form e.2)) =
      (es.map Prod.fst).map toString := by
    rw [Assoc.keys, List.map_map, List.map_map]
    rfl
  rw [hkeys]
  exact List.pairwise_map.mpr (h.imp fun hij hs => hij (Decimal.toString_inj hs))

theorem exactFields_of {α : Type} (form : α → Datum) : ∀ {es : List (Nat × α)},
    (∀ e ∈ es, (form e.2).Exact) → Datum.ExactFields (es.map fun e => (toString e.1, form e.2))
  | [] => fun _ => trivial
  | e :: _ => fun h => ⟨h e List.mem_cons_self,
      exactFields_of form fun e' he' => h e' (List.mem_cons_of_mem _ he')⟩

/-- A snapshot is held exactly by its file. -/
theorem snapshotOf_exact (htidy : saved.Tidy t.id) (now : Moment) :
    (snapshotOf t saved now).1.Exact := by
  refine ⟨by simp [Assoc.keys], Datum.exact_nat (n := 1) (by decide), trivial, trivial,
    ⟨keys_indexedDatum_nodup _ Captures.nodup_indexed, exactFields_of _ fun e _ => ?_⟩,
    ⟨keys_indexedDatum_nodup _ Captures.nodup_indexed, exactFields_of _ fun e _ => ?_⟩,
    ⟨keys_indexedDatum_nodup _ Captures.nodup_indexed, exactFields_of _ fun e he => ?_⟩, trivial⟩
  · exact registryDatum_exact e.2
  · exact serviceDatum_exact e.2
  · exact fileDatum_exact (htidy.files e.1 e.2 (Captures.mem_indexed.mp he).2)

/-- **A snapshot gives back the captures** that were written to it. -/
theorem restoreAll_on (hsmall : t.operations.count ≤ 10 ^ Decimal.maxDigits)
    (htidy : saved.Tidy t.id) (now : Moment) (m : Memory) :
    ∃ m', (restoreAll t (snapshotOf t saved now).1).on m = (.ok (), m') ∧
      Memory.Joined t saved m m' := by
  have hcount : t.operations.registry.length ≤ 10 ^ Decimal.maxDigits ∧
      t.operations.services.length ≤ 10 ^ Decimal.maxDigits ∧
      t.operations.files.length ≤ 10 ^ Decimal.maxDigits := by
    rw [OperationSet.count] at hsmall
    omega
  have hregistry : ∀ c, (restore t.id t.operations.registry registryCapture
      ((saved.registry.indexed t.id .apply t.operations.registry.length).map fun e =>
        (toString e.1, registryDatum e.2))).on c = (.ok (), Captures.keepAll t.id _ c) :=
    restore_on t.id hcount.1 fun e he => by
      obtain ⟨hlt, hget⟩ := Captures.mem_indexed.mp he
      exact ⟨hlt, fun op => registryCapture_datum op (htidy.registry e.1 e.2 hget)⟩
  have hservices : ∀ c, (restore t.id t.operations.services (fun _ => serviceCapture)
      ((saved.services.indexed t.id .apply t.operations.services.length).map fun e =>
        (toString e.1, serviceDatum e.2))).on c = (.ok (), Captures.keepAll t.id _ c) :=
    restore_on t.id hcount.2.1 fun e he => by
      obtain ⟨hlt, hget⟩ := Captures.mem_indexed.mp he
      exact ⟨hlt, fun _ => serviceCapture_datum (htidy.services e.1 e.2 hget)⟩
  have hfiles : ∀ c, (restore t.id t.operations.files (fun _ => fileCapture)
      ((saved.files.indexed t.id .apply t.operations.files.length).map fun e =>
        (toString e.1, fileDatum e.2))).on c = (.ok (), Captures.keepAll t.id _ c) :=
    restore_on t.id hcount.2.2 fun e he =>
      ⟨(Captures.mem_indexed.mp he).1, fun _ => fileCapture_datum e.2⟩
  have hpart₁ : part (snapshotOf t saved now).1 "registry" = .ok
      ((saved.registry.indexed t.id .apply t.operations.registry.length).map fun e =>
        (toString e.1, registryDatum e.2)) := rfl
  have hpart₂ : part (snapshotOf t saved now).1 "services" = .ok
      ((saved.services.indexed t.id .apply t.operations.services.length).map fun e =>
        (toString e.1, serviceDatum e.2)) := rfl
  have hpart₃ : part (snapshotOf t saved now).1 "files" = .ok
      ((saved.files.indexed t.id .apply t.operations.files.length).map fun e =>
        (toString e.1, fileDatum e.2)) := rfl
  rw [restoreAll, Act.on_bind, Act.on_result, hpart₁]
  dsimp only
  rw [Act.on_bind, Part.on_lift, hregistry]
  dsimp only
  rw [Act.on_bind, Act.on_result, hpart₂]
  dsimp only
  rw [Act.on_bind, Part.on_lift, hservices]
  dsimp only
  rw [Act.on_bind, Act.on_result, hpart₃]
  dsimp only
  rw [Part.on_lift, hfiles]
  exact ⟨_, rfl, Captures.get?_keepAll_indexed _ _, Captures.get?_keepAll_indexed _ _,
    Captures.get?_keepAll_indexed _ _⟩

end Snapshot.Store
end TweakEngine
