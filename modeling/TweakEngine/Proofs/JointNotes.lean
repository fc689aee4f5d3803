/-
# The notes of several tweaks

Tweaks that are applied one after the other note what they find each for itself, and the
notes of a later one may hold what an earlier one has written.  `row` puts the
operations of tweaks in one row, and `joint ts` is the tweak that has what the tweaks `ts`
come to as its own operations, so that what is known about the notes of one tweak holds
for those of many.  The row is in order (`row_ordered`): of two operations the first
belongs to an earlier tweak or stands before the other in the same tweak.

A payload that stops the run is the last of a tweak (`Tweak.attempted`), and its operation
leaves the value alone, as one that finds nothing to delete does (`RegistryOperation.tried`).
-/

import TweakEngine.Proofs.Restoration
import Mathlib.Data.List.Nodup

namespace TweakEngine

open Engine (Restored restoringWrite)

/-! ## Operations in a row -/

/-- An operation of a tweak, with its position. -/
structure Numbered (ω : Type) where
  tweak : Tweak
  index : Nat
  op : ω

/-- Where the original of the operation is noted. -/
def Numbered.slot {ω : Type} (x : Numbered ω) : Slot := ⟨x.tweak.id, .apply, x.index⟩

/-- The operations that `ops` gives of tweaks, one tweak after the other. -/
def row {ω : Type} (ops : Tweak → List ω) (ts : List Tweak) : List (Numbered ω) :=
  ts.flatMap fun t => (ops t).mapIdx (Numbered.mk t)

/-- What is noted for the operation at a position of the row. -/
def noteAt {ω C : Type} (es : List (Numbered ω)) (notes : Captures C) (k : Nat) : Option C :=
  es[k]?.bind fun x => Assoc.get? x.slot notes

/-- An operation stands before another one: in the same tweak, or in an earlier one. -/
def Numbered.Before {ω : Type} (ts : List Tweak) (x y : Numbered ω) : Prop :=
  x.tweak = y.tweak ∧ x.index < y.index ∨ [x.tweak, y.tweak].Sublist ts

section

variable {ω C : Type} {ops : Tweak → List ω} {ts : List Tweak} {t : Tweak} {x y : Numbered ω}
  {i j k : Nat}

theorem mem_row : x ∈ row ops ts ↔ x.tweak ∈ ts ∧ (ops x.tweak)[x.index]? = some x.op := by
  simp only [row, List.mem_flatMap, List.mem_mapIdx]
  constructor
  · rintro ⟨t, ht, i, hi, rfl⟩
    exact ⟨ht, List.getElem?_eq_getElem hi⟩
  · rintro ⟨ht, hop⟩
    obtain ⟨hi, hop⟩ := List.getElem?_eq_some_iff.mp hop
    exact ⟨x.tweak, ht, x.index, hi, by rw [hop]⟩

theorem mem_row_of_getElem? (hk : (row ops ts)[k]? = some x) :
    x.tweak ∈ ts ∧ (ops x.tweak)[x.index]? = some x.op :=
  mem_row.mp (List.mem_of_getElem? hk)

theorem row_append (us : List Tweak) : row ops (ts ++ us) = row ops ts ++ row ops us :=
  List.flatMap_append

theorem length_row_snoc :
    (row ops (ts ++ [t])).length = (row ops ts).length + (ops t).length := by
  simp [row]

/-- The place of an operation in the row. -/
theorem row_getElem? (before after : List Tweak) {op : ω} (hop : (ops t)[i]? = some op) :
    (row ops (before ++ t :: after))[(row ops before).length + i]? = some ⟨t, i, op⟩ := by
  have hi : i < ((ops t).mapIdx (Numbered.mk t)).length := by
    rw [List.length_mapIdx]
    exact (List.getElem?_eq_some_iff.mp hop).1
  rw [row_append, List.getElem?_append_right (Nat.le_add_right ..), Nat.add_sub_cancel_left,
    row, List.flatMap_cons, List.getElem?_append_left hi, List.getElem?_mapIdx, hop,
    Option.map_some]

/-- **The row is in order.** -/
theorem row_ordered (ops : Tweak → List ω) (ts : List Tweak) :
    (row ops ts).Pairwise (Numbered.Before ts) := by
  refine List.pairwise_flatMap.mpr ⟨fun t _ => ?_, ?_⟩
  · refine List.pairwise_iff_getElem.mpr fun i j hi hj hij => ?_
    rw [List.getElem_mapIdx, List.getElem_mapIdx]
    exact .inl ⟨rfl, hij⟩
  · refine List.pairwise_iff_forall_sublist.mpr fun {t t'} h x hx y hy => ?_
    obtain ⟨i, hi, rfl⟩ := List.mem_mapIdx.mp hx
    obtain ⟨j, hj, rfl⟩ := List.mem_mapIdx.mp hy
    exact .inr h

theorem before_of_lt (hj : (row ops ts)[j]? = some x) (hk : (row ops ts)[k]? = some y)
    (hjk : j < k) : x.Before ts y := by
  obtain ⟨hj', rfl⟩ := List.getElem?_eq_some_iff.mp hj
  obtain ⟨hk', rfl⟩ := List.getElem?_eq_some_iff.mp hk
  exact List.pairwise_iff_getElem.mp (row_ordered ops ts) j k hj' hk' hjk

variable (ids : (ts.map Tweak.id).Nodup)
include ids

/-- Tweaks at different places have different identifiers. -/
theorem id_ne_of_sublist {t' : Tweak} (h : [t, t'].Sublist ts) : t.id ≠ t'.id :=
  List.pairwise_iff_forall_sublist.mp (List.pairwise_map.mp ids) h

theorem tweak_eq_of_id {t' : Tweak} (ht : t ∈ ts) (ht' : t' ∈ ts) (h : t.id = t'.id) : t = t' :=
  List.inj_on_of_nodup_map ids ht ht' h

theorem Numbered.Before.slot_ne (h : x.Before ts y) : x.slot ≠ y.slot := by
  intro e
  obtain ⟨hid, -, hindex⟩ := Slot.mk.inj e
  rcases h with ⟨-, hlt⟩ | h
  · exact Nat.ne_of_lt hlt hindex
  · exact id_ne_of_sublist ids h hid

/-- Every operation has a note of its own. -/
theorem row_inj (hj : (row ops ts)[j]? = some x) (hk : (row ops ts)[k]? = some y)
    (h : x.slot = y.slot) : j = k := by
  rcases Nat.lt_trichotomy j k with hjk | rfl | hkj
  · exact absurd h ((before_of_lt hj hk hjk).slot_ne ids)
  · rfl
  · exact absurd h.symm ((before_of_lt hk hj hkj).slot_ne ids)

theorem noteAt_keep (notes : Captures C) (hk : (row ops ts)[k]? = some x) (a : C) (j : Nat) :
    noteAt (row ops ts) (Captures.keep x.slot a notes).1 j =
      if j = k then some ((noteAt (row ops ts) notes k).getD a)
      else noteAt (row ops ts) notes j := by
  unfold noteAt
  rw [hk, Option.bind_some]
  cases hj : (row ops ts)[j]? with
  | none =>
    have hjk : j ≠ k := fun e => by rw [e, hk] at hj; cases hj
    rw [if_neg hjk, Option.bind_none, Option.bind_none]
  | some y =>
    rw [Option.bind_some, Option.bind_some, Captures.get?_keep]
    by_cases hjk : j = k
    · subst hjk
      obtain rfl := Option.some.inj (hj.symm.trans hk)
      rw [if_pos rfl, if_pos rfl]
    · rw [if_neg fun e => hjk (row_inj ids hj hk e.symm), if_neg hjk]

theorem noteAt_erase (notes : Captures C) (hk : (row ops ts)[k]? = some x) (j : Nat) :
    noteAt (row ops ts) (Assoc.erase x.slot notes) j =
      if j = k then none else noteAt (row ops ts) notes j := by
  unfold noteAt
  cases hj : (row ops ts)[j]? with
  | none => simp
  | some y =>
    rw [Option.bind_some, Option.bind_some, Assoc.get?_erase]
    by_cases hjk : j = k
    · subst hjk
      obtain rfl := Option.some.inj (hj.symm.trans hk)
      rw [if_pos rfl, if_pos rfl]
    · rw [if_neg fun e => hjk (row_inj ids hj hk e.symm), if_neg hjk]

end

/-! ## What a tweak comes to -/

namespace RegistryOperation

/-- The payload stops the run. -/
def stops (op : RegistryOperation) : Bool :=
  decide (op.action = .setValue) && !goesOn op.resolveValue

/-- The operation as far as it gets: a payload that stops the run is not written. -/
def tried (op : RegistryOperation) : RegistryOperation :=
  if op.stops then { op with action := .deleteValue } else op

variable {op : RegistryOperation} {m m' : Machine} {c : RegistryCapture}

theorem stops_eq_true : op.stops = true ↔ op.action = .setValue ∧ goesOn op.resolveValue = false := by
  simp [stops]

theorem stops_eq_false :
    op.stops = false ↔ (op.action = .setValue → goesOn op.resolveValue = true) := by
  simp [stops, Decidable.imp_iff_not_or]

theorem tried_eq (op : RegistryOperation) : op.stops = false ∧ op.tried = op ∨
    (op.action = .setValue ∧ goesOn op.resolveValue = false) ∧
      op.tried = { op with action := .deleteValue } := by
  cases h : op.stops with
  | false => exact .inl ⟨rfl, by rw [tried, h]; rfl⟩
  | true => exact .inr ⟨stops_eq_true.mp h, by rw [tried, h]; rfl⟩

theorem tried_goesOn (h : op.tried.action = .setValue) : goesOn op.tried.resolveValue = true := by
  rcases op.tried_eq with ⟨hs, he⟩ | ⟨-, he⟩
  · rw [he] at h ⊢
    exact stops_eq_false.mp hs h
  · rw [he] at h
    cases h

theorem tried_cell? (op : RegistryOperation) : op.tried.cell? = op.cell? := by
  rcases op.tried_eq with ⟨-, he⟩ | ⟨⟨ha, -⟩, he⟩
  · rw [he]
  · rw [he, cell?, cell?, ha]
    rfl

theorem tried_noteOf (op : RegistryOperation) (m : Machine) : op.tried.noteOf m = op.noteOf m := by
  rcases op.tried_eq with ⟨-, he⟩ | ⟨⟨ha, -⟩, he⟩
  · rw [he]
  · rw [he, noteOf, noteOf, ha]
    rfl

/-- A payload that stops the run is not written. -/
theorem tried_issues {w : Write} (h : op.issues w) : op.tried.issues w := by
  rcases op.tried_eq with ⟨-, he⟩ | ⟨⟨ha, hv⟩, -⟩
  · rwa [he]
  · rw [issues, ha] at h
    obtain ⟨v, hok, -⟩ := h
    rw [hok] at hv
    cases hv

theorem tried_restored (h : Restored op c m m') : Restored op.tried c m m' := by
  rcases op.tried_eq with ⟨-, he⟩ | ⟨⟨ha, -⟩, he⟩
  · rwa [he]
  · rw [he, Restored, restoringWrite]
    rw [Restored, restoringWrite, ha] at h
    exact h

theorem tried_textual (h : op.Textual) : op.tried.Textual := by
  rcases op.tried_eq with ⟨-, he⟩ | ⟨-, he⟩
  · rwa [he]
  · rw [he]
    exact ⟨h.keyPath, h.valueName⟩

theorem tried_action (h : op.action ≠ .deleteKey) : op.tried.action ≠ .deleteKey := by
  rcases op.tried_eq with ⟨-, he⟩ | ⟨-, he⟩
  · rwa [he]
  · rw [he]
    exact nofun

end RegistryOperation

namespace Tweak

/-- The registry operations that running the tweak comes to. -/
def attempted (t : Tweak) : List RegistryOperation :=
  (t.operations.registry.take (t.operations.registry.findIdx RegistryOperation.stops + 1)).map
    RegistryOperation.tried

/-- The service operations that running the tweak comes to. -/
def serviced (t : Tweak) : List ServiceOperation :=
  if t.operations.registry.any RegistryOperation.stops then [] else t.operations.services

variable {t : Tweak} {i : Nat} {op o : RegistryOperation} {sop : ServiceOperation}

theorem clear_iff : t.Clear i ↔
    ∀ j < i, ∀ op, t.operations.registry[j]? = some op → op.stops = false := by
  simp only [Clear, RegistryOperation.stops_eq_false]

theorem attempted_getElem? (hi : t.operations.registry[i]? = some op) (hclear : t.Clear i) :
    t.attempted[i]? = some op.tried := by
  have hle : i ≤ t.operations.registry.findIdx RegistryOperation.stops := by
    by_contra hlt
    have hlt := Nat.lt_of_not_le hlt
    have hlen := Nat.lt_trans hlt (List.getElem?_eq_some_iff.mp hi).1
    have hstops := List.findIdx_getElem (w := hlen)
    rw [clear_iff.mp hclear _ hlt _ (List.getElem?_eq_getElem hlen)] at hstops
    cases hstops
  rw [attempted, List.getElem?_map, List.getElem?_take, if_pos (by omega), hi, Option.map_some]

theorem attempted_eq_some (h : t.attempted[i]? = some o) :
    ∃ op, t.operations.registry[i]? = some op ∧ o = op.tried ∧ t.Clear i := by
  rw [attempted, List.getElem?_map, List.getElem?_take] at h
  split at h
  · next hi =>
    obtain ⟨op, hop, rfl⟩ := Option.map_eq_some_iff.mp h
    refine ⟨op, hop, rfl, clear_iff.mpr fun j hj op' hop' => ?_⟩
    obtain ⟨hlen, rfl⟩ := List.getElem?_eq_some_iff.mp hop'
    exact List.not_of_lt_findIdx (by omega)
  · cases h

theorem lt_length_attempted : i < t.attempted.length ↔ t.Reaches i := by
  constructor
  · intro h
    obtain ⟨op, hop, -, hclear⟩ := attempted_eq_some (List.getElem?_eq_getElem h)
    exact ⟨(List.getElem?_eq_some_iff.mp hop).1, hclear⟩
  · rintro ⟨hi, hclear⟩
    exact (List.getElem?_eq_some_iff.mp
      (attempted_getElem? (List.getElem?_eq_getElem hi) hclear)).1

/-- The operation whose payload stops the run is the last one. -/
theorem length_attempted_of_stops (hi : t.operations.registry[i]? = some op) (hclear : t.Clear i)
    (hstops : op.stops = true) : t.attempted.length = i + 1 := by
  refine Nat.le_antisymm (Nat.le_of_not_lt fun h => ?_)
    (lt_length_attempted.mpr ⟨(List.getElem?_eq_some_iff.mp hi).1, hclear⟩)
  have := clear_iff.mp (lt_length_attempted.mp h).2 i (Nat.lt_succ_self i) op hi
  rw [hstops] at this
  cases this

theorem length_attempted_of_clear (hclear : t.Clear t.operations.registry.length) :
    t.attempted.length = t.operations.registry.length := by
  refine Nat.le_antisymm (Nat.le_of_not_lt fun h => ?_) (Nat.le_of_not_lt fun h => ?_)
  · exact absurd (lt_length_attempted.mp h).1 (Nat.lt_irrefl _)
  · exact absurd (lt_length_attempted.mpr ⟨h, fun j hj => hclear j (Nat.lt_trans hj h)⟩)
      (Nat.lt_irrefl _)

theorem serviced_of_stops (hi : t.operations.registry[i]? = some op) (hstops : op.stops = true) :
    t.serviced = [] :=
  if_pos (List.any_eq_true.mpr ⟨op, List.mem_of_getElem? hi, hstops⟩)

theorem serviced_of_clear (hclear : t.Clear t.operations.registry.length) :
    t.serviced = t.operations.services := by
  refine if_neg fun h => ?_
  obtain ⟨op, hop, hstops⟩ := List.any_eq_true.mp h
  obtain ⟨i, hi⟩ := List.mem_iff_getElem?.mp hop
  rw [clear_iff.mp hclear i (List.getElem?_eq_some_iff.mp hi).1 op hi] at hstops
  cases hstops

theorem serviced_eq_some (h : t.serviced[i]? = some sop) :
    t.operations.services[i]? = some sop := by
  unfold serviced at h
  split at h
  · cases h
  · exact h

end Tweak

/-! ## The joint tweak -/

/-- The registry operations that tweaks come to. -/
abbrev registryRow (ts : List Tweak) : List (Numbered RegistryOperation) :=
  row Tweak.attempted ts

/-- The service operations that tweaks come to. -/
abbrev serviceRow (ts : List Tweak) : List (Numbered ServiceOperation) :=
  row Tweak.serviced ts

/-- What tweaks come to, as one tweak. -/
def joint (ts : List Tweak) : Tweak :=
  { id := ""
    name := .null
    operations :=
      { registry := (registryRow ts).map Numbered.op
        services := (serviceRow ts).map Numbered.op } }

section

variable {ts : List Tweak} {k : Nat}

theorem joint_registry {x : Numbered RegistryOperation} (hk : (registryRow ts)[k]? = some x) :
    (joint ts).operations.registry[k]? = some x.op := by
  rw [joint, List.getElem?_map, hk, Option.map_some]

theorem joint_services {x : Numbered ServiceOperation} (hk : (serviceRow ts)[k]? = some x) :
    (joint ts).operations.services[k]? = some x.op := by
  rw [joint, List.getElem?_map, hk, Option.map_some]

/-- An operation of the joint tweak is about the value that it is about in its own tweak. -/
theorem joint_cellAt {x : Numbered RegistryOperation} (hk : (registryRow ts)[k]? = some x) :
    (joint ts).cellAt k = x.tweak.cellAt x.index := by
  obtain ⟨op, hop, he, -⟩ := Tweak.attempted_eq_some (mem_row_of_getElem? hk).2
  rw [cellAt_eq (joint_registry hk), cellAt_eq hop, he, RegistryOperation.tried_cell?]

theorem joint_serviceAt {x : Numbered ServiceOperation} (hk : (serviceRow ts)[k]? = some x) :
    (joint ts).serviceAt k = x.tweak.serviceAt x.index := by
  rw [serviceAt_eq (joint_services hk),
    serviceAt_eq (Tweak.serviced_eq_some (mem_row_of_getElem? hk).2)]

/-- Nothing stops the joint tweak. -/
theorem joint_reaches (hk : k < (registryRow ts).length) : (joint ts).Reaches k := by
  refine ⟨by rw [joint, List.length_map]; exact hk, fun j hj op hop ha => ?_⟩
  rw [joint, List.getElem?_map] at hop
  obtain ⟨x, hx, rfl⟩ := Option.map_eq_some_iff.mp hop
  obtain ⟨op, -, he, -⟩ := Tweak.attempted_eq_some (mem_row_of_getElem? hx).2
  rw [he] at ha ⊢
  exact RegistryOperation.tried_goesOn ha

/-- The joint tweak of plain tweaks has a plain registry. -/
theorem joint_plain (h : ∀ t ∈ ts, t.PlainRegistry) : (joint ts).PlainRegistry := by
  have hop : ∀ o ∈ (joint ts).operations.registry, ∃ t ∈ ts, ∃ op ∈ t.operations.registry,
      o = op.tried := by
    intro o ho
    obtain ⟨x, hx, rfl⟩ := List.mem_map.mp ho
    obtain ⟨ht, hx⟩ := mem_row.mp hx
    obtain ⟨op, hop, he, -⟩ := Tweak.attempted_eq_some hx
    exact ⟨x.tweak, ht, op, List.mem_of_getElem? hop, he⟩
  refine ⟨fun o ho => ?_, fun o ho => ?_⟩ <;> obtain ⟨t, ht, op, hmem, rfl⟩ := hop o ho
  · exact RegistryOperation.tried_textual ((h t ht).textual op hmem)
  · exact RegistryOperation.tried_action ((h t ht).action op hmem)

end
end TweakEngine
