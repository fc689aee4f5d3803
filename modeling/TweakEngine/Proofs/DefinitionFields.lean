/-
# The fields of written definitions

An object that was written with fields of different names gives every value back under its
name, and nothing under another name (`Fields.ofDatum_object`); fields that are null may be
left out (`Fields.ofDatum_present`).  From `Fields.Holds` follows what a reader gets by each
way of asking.

The values of a JSON file are those without bytes, tuples and typed registry values
(`Datum.isJson`).  The text form of such a value is not blank, unless the value is absent
or a blank text (`Datum.display_shows`).
-/

import TweakEngine.Catalog.Reader
import TweakEngine.Catalog.Writer
import TweakEngine.Proofs.CaptureForms
import Mathlib.Data.List.Nodup

namespace TweakEngine

namespace Datum

/-! ## The values of JSON files -/

mutual

/-- Whether a value can be what a JSON file holds. -/
def isJson : Datum → Bool
  | null | bool _ | int _ | float _ | text _ => true
  | list items => areJson items
  | object fields => holdJson fields
  | bytes _ | tuple _ | registry _ => false

/-- Whether all items can be what a JSON file holds. -/
def areJson : List Datum → Bool
  | [] => true
  | item :: items => isJson item && areJson items

/-- Whether the values of all fields can be what a JSON file holds. -/
def holdJson : List (String × Datum) → Bool
  | [] => true
  | (_, value) :: fields => isJson value && holdJson fields

end

theorem areJson_iff : ∀ {items : List Datum}, areJson items = true ↔ ∀ d ∈ items, d.isJson = true
  | [] => by simp [areJson]
  | item :: items => by
    rw [areJson, Bool.and_eq_true, areJson_iff, List.forall_mem_cons]

theorem holdJson_iff : ∀ {fields : List (String × Datum)},
    holdJson fields = true ↔ ∀ e ∈ fields, e.2.isJson = true
  | [] => by simp [holdJson]
  | (key, value) :: fields => by
    rw [holdJson, Bool.and_eq_true, holdJson_iff, List.forall_mem_cons]

/-- A JSON value is written as the payload that it is. -/
theorem payloadJson_of_isJson {d : Datum} (h : d.isJson = true) : d.payloadJson = d := by
  cases d with
  | bytes | tuple | registry => rw [isJson] at h; cases h
  | null | bool | int | float | text | list | object => rfl

/-- The items of a JSON value are JSON values. -/
theorem iterate_isJson {d : Datum} {items : List Datum} (h : d.isJson = true)
    (hi : d.iterate = .ok items) : ∀ item ∈ items, item.isJson = true := by
  cases d with
  | list => cases hi; exact areJson_iff.mp h
  | text s =>
    cases hi
    rintro _ hitem
    obtain ⟨c, -, rfl⟩ := List.mem_map.mp hitem
    rfl
  | object fields =>
    cases hi
    rintro _ hitem
    obtain ⟨e, -, rfl⟩ := List.mem_map.mp hitem
    rfl
  | bytes | tuple => rw [isJson] at h; cases h
  | null | bool | int | float | registry => cases hi

/-- Whether a value does not count as given where one is required. -/
def isBlank : Datum → Bool
  | null => true
  | text s => Text.isBlankText s
  | _ => false

theorem isNull_of_isBlank {d : Datum} (h : d.isBlank = false) : d.isNull = false := by
  cases d with
  | null => cases h
  | _ => rfl

/-- A value that is not absent. -/
def given? (d : Datum) : Option Datum := if d.isNull then none else some d

theorem given?_of_not_null {d : Datum} (h : d.isNull = false) : d.given? = some d := by
  rw [given?, h, if_neg Bool.false_ne_true]

theorem given?_getD (d : Datum) : d.given?.getD null = d := by
  cases d <;> rfl

/-! ## The text forms of JSON values -/

end Datum

theorem Text.isBlankText_of_mem {s : String} {c : Char} (h : c ∈ s.toList)
    (hc : Text.isBlank c = false) : Text.isBlankText s = false :=
  List.all_eq_false.mpr ⟨c, h, Bool.eq_false_iff.mp hc⟩

theorem Text.isBlank_of_isDigit {c : Char} (h : c.isDigit = true) : Text.isBlank c = false := by
  obtain ⟨hlow, hhigh⟩ := Decimal.toNat_of_isDigit h
  simp only [Text.isBlank, Bool.or_eq_false_iff, Bool.and_eq_false_iff, decide_eq_false_iff_not,
    beq_eq_false_iff_ne]
  omega

namespace Decimal

theorem exists_mem_natChars (n : Nat) : ∃ c ∈ natChars n, c.isDigit = true := by
  obtain ⟨c, hc⟩ := List.exists_mem_of_ne_nil _ (Nat.toDigits_ne_nil (n := n) (b := 10))
  exact ⟨c, hc, Json.natChars_digit c hc⟩

theorem exists_mem_intText (n : Int) : ∃ c ∈ (intText n).toList, c.isDigit = true := by
  obtain ⟨c, hc, hdigit⟩ := exists_mem_natChars n.natAbs
  refine ⟨c, ?_, hdigit⟩
  rw [intText]
  split
  · rw [String.toList_ofList]; exact List.mem_cons_of_mem _ hc
  · rw [String.toList_ofList]; exact hc

theorem intText_shows (n : Int) : Text.isBlankText (intText n) = false := by
  obtain ⟨c, hc, hdigit⟩ := exists_mem_intText n
  exact Text.isBlankText_of_mem hc (Text.isBlank_of_isDigit hdigit)

/-- Digits with an exponent begin with the first of them. -/
theorem exists_mem_scientific {cs : List Char} (h : cs ≠ []) (e : Int) :
    ∃ c ∈ scientific cs e, c ∈ cs := by
  match cs with
  | [d] => exact ⟨d, List.mem_cons_self, List.mem_cons_self⟩
  | d :: _ :: _ => exact ⟨d, List.mem_cons_self, List.mem_cons_self⟩

/-- The text of a double is a word, or it has a point or a digit. -/
theorem render_marks (x : Float) : render x ∈ ["nan", "inf", "-inf"] ∨
    ∃ c ∈ (render x).toList, c = '.' ∨ c.isDigit = true := by
  rw [render]
  cases Parts.ofFloat x with
  | notANumber => exact .inl (by decide)
  | infinite negative => exact .inl (by cases negative <;> decide)
  | finite negative m q coarse =>
    refine .inr ?_
    dsimp only
    generalize hbody : (if m = 0 then ['0', '.', '0'] else _) = body
    have hmarks : ∃ c ∈ body, c = '.' ∨ c.isDigit = true := by
      subst hbody
      split
      · exact ⟨'.', by simp, .inl rfl⟩
      split
      · split
        · next hpoint => exact ⟨'.', List.contains_iff_mem.mp hpoint, .inl rfl⟩
        · exact ⟨'.', List.mem_append_right _ List.mem_cons_self, .inl rfl⟩
      · obtain ⟨c, hc, hdigits⟩ := exists_mem_scientific Nat.toDigits_ne_nil _
        exact ⟨c, hc, .inr (Json.natChars_digit c hdigits)⟩
    obtain ⟨c, hc, hmark⟩ := hmarks
    refine ⟨c, ?_, hmark⟩
    rw [String.toList_ofList]
    split
    · exact List.mem_cons_of_mem _ hc
    · exact hc

theorem render_shows (x : Float) : Text.isBlankText (render x) = false := by
  rcases render_marks x with hword | ⟨c, hc, rfl | hdigit⟩
  · simp only [List.mem_cons, List.not_mem_nil, or_false] at hword
    rcases hword with h | h | h <;> rw [h] <;> decide
  · exact Text.isBlankText_of_mem hc rfl
  · exact Text.isBlankText_of_mem hc (Text.isBlank_of_isDigit hdigit)

end Decimal

namespace Datum

/-- What was required of a JSON file shows as a text that is not blank. -/
theorem display_shows {d : Datum} (hj : d.isJson = true) (hd : d.isBlank = false) :
    Text.isBlankText d.display = false := by
  cases d with
  | null => cases hd
  | bool b => cases b <;> decide
  | int n => exact Decimal.intText_shows n
  | float x => exact Decimal.render_shows x
  | text s => exact hd
  | list items =>
    refine Text.isBlankText_of_mem (c := '[') ?_ rfl
    simp [display, quoted]
  | object fields =>
    refine Text.isBlankText_of_mem (c := '\x7b') ?_ rfl
    simp [display, quoted]
  | bytes | tuple | registry => rw [isJson] at hj; cases hj

end Datum

/-! ## Labels -/

/-- A vocabulary whose members are read from their labels, none of which is blank. -/
class Labelled.Faithful (α : Type) [Labelled α] : Prop where
  parse?_label : ∀ a : α, Labelled.parse? (Labelled.label a) = some a
  label_shows : ∀ a : α, Text.isBlankText (Labelled.label a) = false

namespace Labelled

variable {α : Type} [Labelled α] [Faithful α]

theorem ofDatum_label (a : α) : (ofDatum (.text (label a)) : Except Failure α) = .ok a := by
  rw [ofDatum, Datum.display, Faithful.parse?_label]

theorem ofTag_label (numbers : Option (List (Int × α))) (a : α) :
    ofTag numbers (.text (label a)) = .ok a := ofDatum_label a

instance : Faithful Hive := ⟨fun a => by cases a <;> decide +kernel, fun a => by cases a <;> decide⟩

instance : Faithful ValueKind := ⟨ValueKind.parse?_label, fun a => by cases a <;> decide⟩

instance : Faithful RegistryAction :=
  ⟨fun a => by cases a <;> decide +kernel, fun a => by cases a <;> decide⟩

instance : Faithful ServiceAction :=
  ⟨fun a => by cases a <;> decide +kernel, fun a => by cases a <;> decide⟩

instance : Faithful FileAction :=
  ⟨fun a => by cases a <;> decide +kernel, fun a => by cases a <;> decide⟩

instance : Faithful StartupType := ⟨StartupType.parse?_label, fun a => by cases a <;> decide⟩

instance : Faithful Severity :=
  ⟨fun a => by cases a <;> decide +kernel, fun a => by cases a <;> decide⟩

instance : Faithful Logic := ⟨fun a => by cases a <;> decide +kernel, fun a => by cases a <;> decide⟩

end Labelled

/-- A start type is read from its label, and an absent one stays absent. -/
theorem StartupType.ofTag_ofLabel? (s : Option StartupType) : ofTag (.ofLabel? s) = .ok s := by
  cases s with
  | none => rfl
  | some t =>
    show (some <$> Labelled.ofDatum (.text (Labelled.label t)) : Except Failure _) = _
    rw [Labelled.ofDatum_label]
    rfl

namespace Fields

variable {f : Fields} {fields : List (String × Datum)} {what name : String} {d e : Datum}

/-! ## Looking fields up -/

theorem find?_cons (names : List String) :
    f.find? (name :: names) = (f.find? [name]).or (f.find? names) := by
  simp only [find?, List.findSome?_cons, List.findSome?_nil]
  split <;> rfl

theorem find?_one : f.find? [name] = (Assoc.get? (Text.fold name) f.entries).bind Datum.given? := by
  rw [find?, List.findSome?_cons, List.findSome?_nil]
  cases Assoc.get? (Text.fold name) f.entries with
  | none => rfl
  | some d => cases d <;> rfl

/-- The value found is not absent, and it is the value of a field. -/
theorem find?_some {names : List String} (h : f.find? names = some d) :
    d.isNull = false ∧ ∃ e ∈ f.entries, e.2 = d := by
  induction names with
  | nil => cases h
  | cons name names ih =>
    rw [find?_cons] at h
    cases hname : f.find? [name] with
    | none => rw [hname, Option.none_or] at h; exact ih h
    | some d' =>
      rw [hname, Option.some_or] at h
      obtain rfl := Option.some.inj h
      rw [find?_one] at hname
      obtain ⟨d'', hget, hgiven⟩ := Option.bind_eq_some_iff.mp hname
      rw [Datum.given?] at hgiven
      split at hgiven
      · cases hgiven
      · next hnull =>
        obtain rfl := Option.some.inj hgiven
        exact ⟨Bool.eq_false_iff.mpr hnull, _, Assoc.mem_of_get? hget, rfl⟩

/-- A field or its default is not absent when the default is not. -/
theorem getOr_not_null (hd : d.isNull = false) : (f.getOr name d).isNull = false := by
  rw [getOr]
  cases h : f.find? [name] with
  | none => exact hd
  | some e => exact (find?_some h).1

/-- A required field is found, and it is not blank. -/
theorem of_require (h : f.require name = .ok d) : f.find? [name] = some d ∧ d.isBlank = false := by
  rw [require] at h
  split at h
  · cases h
  · next s hfind =>
    split at h
    · cases h
    · next hs => cases h; exact ⟨hfind, Bool.eq_false_iff.mpr hs⟩
  · next htext hfind =>
    cases h
    refine ⟨hfind, ?_⟩
    cases d with
    | null => exact absurd (find?_some hfind).1 (by decide)
    | text s => exact absurd rfl (htext s)
    | _ => rfl

theorem require_of_find? (h : f.find? [name] = some d) (hd : d.isBlank = false) :
    f.require name = .ok d := by
  rw [require, h]
  cases d with
  | text s => exact if_neg (Bool.eq_false_iff.mp hd)
  | _ => rfl

/-- The fields of a JSON object hold JSON values. -/
theorem find?_isJson {j : Datum} {names : List String} (hj : j.isJson = true)
    (hf : ofDatum what j = .ok f) (h : f.find? names = some d) : d.isJson = true := by
  cases j with
  | object fields =>
    cases hf
    obtain ⟨e, he, rfl⟩ := (find?_some h).2
    rcases Assoc.mem_update he with he | ⟨e', he', heq⟩
    · cases he
    · obtain ⟨e₀, he₀, rfl⟩ := List.mem_map.mp he'
      exact heq ▸ Datum.holdJson_iff.mp hj e₀ he₀
  | _ => cases hf

/-! ## Fields that were written -/

/-- The fields hold each of the given values under its name, and nothing under another
name. -/
structure Holds (f : Fields) (fields : List (String × Datum)) : Prop where
  found : ∀ {name d}, (name, d) ∈ fields → f.find? [name] = d.given?
  lost : ∀ {name}, Text.fold name ∉ fields.map (fun e => Text.fold e.1) → f.find? [name] = none

/-- An object with different names holds its fields. -/
theorem ofDatum_object (hn : (fields.map fun e => Text.fold e.1).Nodup) :
    ∃ f, ofDatum what (.object fields) = .ok f ∧ f.Holds fields := by
  have hkeys : Assoc.keys (fields.map fun e => (Text.fold e.1, e.2)) =
      fields.map fun e => Text.fold e.1 := List.map_map
  have hkeysn := hkeys ▸ hn
  refine ⟨⟨_, what⟩, rfl, ⟨fun {name d} h => ?_, fun {name} h => ?_⟩⟩
  · have hmem : (Text.fold name, d) ∈ fields.map fun e => (Text.fold e.1, e.2) :=
      List.mem_map.mpr ⟨(name, d), h, rfl⟩
    rw [find?_one, Assoc.ofList_of_nodup hkeysn, Assoc.get?_of_mem hkeysn hmem, Option.bind_some]
  · rw [find?_one, Assoc.ofList_of_nodup hkeysn, Assoc.get?_eq_none (hkeys ▸ h), Option.bind_none]

/-- An object without its null fields holds all of them. -/
theorem ofDatum_present (hn : (fields.map fun e => Text.fold e.1).Nodup) :
    ∃ f, ofDatum what (.present fields) = .ok f ∧ f.Holds fields := by
  have hsub : ((fields.filter fun e => !e.2.isNull).map fun e => Text.fold e.1).Sublist
      (fields.map fun e => Text.fold e.1) := List.filter_sublist.map _
  obtain ⟨f, hf, hholds⟩ : ∃ f, ofDatum what (.object (fields.filter fun e => !e.2.isNull)) = .ok f ∧
    f.Holds (fields.filter fun e => !e.2.isNull) := ofDatum_object (hn.sublist hsub)
  refine ⟨f, hf, ⟨fun {name d} h => ?_, fun h => hholds.lost (mt (hsub.subset ·) h)⟩⟩
  cases hnull : d.isNull with
  | false => exact hholds.found (List.mem_filter.mpr ⟨h, by simp [hnull]⟩)
  | true =>
    -- the only field of this name was the one left out
    have hnone : f.find? [name] = none := by
      refine hholds.lost fun hmem => ?_
      obtain ⟨e, he, hfold⟩ := List.mem_map.mp hmem
      obtain ⟨he, hgiven⟩ := List.mem_filter.mp he
      rw [List.inj_on_of_nodup_map hn he h hfold, hnull] at hgiven
      cases hgiven
    rw [hnone, Datum.given?, hnull, if_pos rfl]

/-- What is read from the fields that were written. -/
theorem bind_present {α : Type} {k : Fields → Except Failure α} {r : Except Failure α}
    (hn : (fields.map fun e => Text.fold e.1).Nodup) (h : ∀ f, f.Holds fields → k f = r) :
    (ofDatum what (.present fields) >>= k) = r := by
  obtain ⟨f, hf, hholds⟩ := ofDatum_present hn
  rw [hf, ok_bind]
  exact h f hholds

/-- What is read from the fields that were written, none of which is left out. -/
theorem bind_object {α : Type} {k : Fields → Except Failure α} {r : Except Failure α}
    (hn : (fields.map fun e => Text.fold e.1).Nodup) (h : ∀ f, f.Holds fields → k f = r) :
    (ofDatum what (.object fields) >>= k) = r := by
  obtain ⟨f, hf, hholds⟩ := ofDatum_object hn
  rw [hf, ok_bind]
  exact h f hholds

namespace Holds

theorem get (hf : f.Holds fields) (h : (name, d) ∈ fields) : f.get name = d := by
  rw [Fields.get, hf.found h, Datum.given?_getD]

theorem getOr (hf : f.Holds fields) (h : (name, d) ∈ fields) (hd : d.isNull = false) :
    f.getOr name e = d := by
  rw [Fields.getOr, hf.found h, Datum.given?_of_not_null hd, Option.getD_some]

theorem require (hf : f.Holds fields) (h : (name, d) ∈ fields) (hd : d.isBlank = false) :
    f.require name = .ok d :=
  require_of_find? (hf.found h ▸ Datum.given?_of_not_null (Datum.isNull_of_isBlank hd)) hd

theorem first (hf : f.Holds fields) (h : (name, d) ∈ fields) (hd : d.isNull = false)
    (names : List String) : f.find? (name :: names) = some d := by
  rw [find?_cons, hf.found h, Datum.given?_of_not_null hd, Option.some_or]

/-- Of two names of which the second was not written, the first counts. -/
theorem either (hf : f.Holds fields) (h : (name, d) ∈ fields) {other : String}
    (hother : Text.fold other ∉ fields.map fun e => Text.fold e.1) :
    f.find? [name, other] = d.given? := by
  rw [find?_cons, hf.found h, hf.lost hother, Option.or_none]

end Holds
end Fields
end TweakEngine
