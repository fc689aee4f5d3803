/-
# Registries as trees

A key is stored once, and with it the keys above it (`RegistryTree.Rooted`).  The registry that is
described at the start is such a tree, and it stays one when keys are added, when the values of a
key are put, and when keys are removed together with what is below them.  What lies at or below a
key (`RegistryTree.covers`) is what a machine in memory would take away with it; the keys directly
below a key are those that are stored under one name more (`RegistryTree.mem_subkeys`).
-/

import TweakEngine.Proofs.Actions
import TweakEngine.Proofs.Paths
import TweakEngine.Proofs.Spots
import TweakEngine.Proofs.Tables
import TweakEngine.System.RegistryTree
import Mathlib.Data.List.Nodup

namespace TweakEngine
namespace RegistryTree

variable {t t' : RegistryTree} {k k' c : KeyPlace} {name : String}

/-! ## Places -/

/-- The place of a key by its hive and the text of its path. -/
def placeOf (hive : Hive) (path : String) : KeyPlace := (hive, Text.lowerAsciiText path)

/-- The place of a key directly below a key. -/
def child (k : KeyPlace) (name : String) : KeyPlace := (k.1, k.2 ++ "\\" ++ name)

/-- Whether the second place is the first one or lies below it. -/
def covers (k k' : KeyPlace) : Bool := Machine.atOrBelow k.1 k.2 k'

theorem place_text (hive : Hive) (path : String) :
    place hive (.text path) = .ok (placeOf hive path) := by
  unfold place nameOf placeOf
  by_cases h : path = ""
  · subst h
    rfl
  · have htruthy : (Datum.text path).truthy = true := by simpa [Datum.truthy] using h
    rw [htruthy]
    rfl

theorem child_toList (k : KeyPlace) (name : String) :
    (child k name).2.toList = k.2.toList ++ '\\' :: name.toList := by
  simp [child]

theorem covers_iff : covers k k' = true ↔
    k' = k ∨ k'.1 = k.1 ∧ ∃ rest, k'.2.toList = k.2.toList ++ '\\' :: rest := by
  have habove : (k.2 ++ "\\").toList <+: k'.2.toList ↔
      ∃ rest, k'.2.toList = k.2.toList ++ '\\' :: rest :=
    exists_congr fun rest => by simp [eq_comm]
  rw [covers, Machine.atOrBelow_iff, habove, and_or_left, Prod.ext_iff]

theorem covers_self (k : KeyPlace) : covers k k = true := covers_iff.mpr (.inl rfl)

theorem covers_child (k : KeyPlace) (name : String) : covers k (child k name) = true :=
  covers_iff.mpr (.inr ⟨rfl, name.toList, child_toList k name⟩)

theorem covers_trans (h : covers k c = true) (h' : covers c k' = true) : covers k k' = true := by
  rcases covers_iff.mp h with rfl | ⟨hhive, rest, hrest⟩
  · exact h'
  · rcases covers_iff.mp h' with rfl | ⟨hhive', rest', hrest'⟩
    · exact h
    · refine covers_iff.mpr (.inr ⟨hhive'.trans hhive, rest ++ '\\' :: rest', ?_⟩)
      rw [hrest', hrest, List.append_assoc, List.cons_append]

/-- Of two keys that lie at or below each other there is one. -/
theorem eq_of_covers (h : covers k k' = true) (h' : covers k' k = true) : k' = k := by
  rcases covers_iff.mp h with rfl | ⟨-, rest, hrest⟩
  · rfl
  · rcases covers_iff.mp h' with rfl | ⟨-, rest', hrest'⟩
    · rfl
    · have hlength := congrArg List.length hrest
      rw [hrest', List.length_append, List.length_append, List.length_cons, List.length_cons]
        at hlength
      omega

theorem child_ne (k : KeyPlace) (name : String) : child k name ≠ k := by
  intro h
  have hpath := congrArg (fun p : KeyPlace => p.2.toList.length) h
  simp only [child_toList, List.length_append, List.length_cons] at hpath
  omega

theorem not_covers_of_child (k : KeyPlace) (name : String) : covers (child k name) k = false :=
  Bool.eq_false_iff.mpr fun h => child_ne k name (eq_of_covers (covers_child k name) h)

/-- What lies below a key lies at or below one directly below it. -/
theorem exists_child (h : covers k k' = true) (hne : k' ≠ k) :
    ∃ name, '\\' ∉ name.toList ∧ covers (child k name) k' = true := by
  obtain ⟨hhive, rest, hrest⟩ := (covers_iff.mp h).resolve_left hne
  have hname : '\\' ∉ rest.takeWhile (· != '\\') := fun hmem => by
    have hall := List.all_eq_true.mp (List.all_takeWhile (p := (· != '\\')) (l := rest)) _ hmem
    exact absurd hall (by decide)
  have hsplit := List.takeWhile_append_dropWhile (p := (· != '\\')) (l := rest)
  refine ⟨String.ofList (rest.takeWhile (· != '\\')), by rwa [String.toList_ofList], ?_⟩
  cases hdrop : rest.dropWhile (· != '\\') with
  | nil =>
    rw [hdrop, List.append_nil] at hsplit
    refine covers_iff.mpr (.inl (Prod.ext hhive (String.toList_inj.mp ?_)))
    rw [hrest, child_toList, String.toList_ofList, hsplit]
  | cons c tail =>
    have hc : c = '\\' := by
      have hhead := List.head?_dropWhile_not (· != '\\') rest
      rw [hdrop] at hhead
      simpa using hhead
    rw [hdrop, hc] at hsplit
    refine covers_iff.mpr (.inr ⟨hhive, tail, ?_⟩)
    rw [hrest, child_toList, String.toList_ofList, List.append_assoc, List.cons_append, hsplit]

/-- Of two keys directly below a key, none is below the other. -/
theorem name_of_covers {other : String} (hname : '\\' ∉ name.toList)
    (h : covers (child k other) (child k name) = true) : name = other := by
  rcases covers_iff.mp h with h | ⟨-, rest, hrest⟩
  · have hpath := congrArg (fun p : KeyPlace => p.2.toList) h
    rw [child_toList, child_toList] at hpath
    exact String.toList_inj.mp (List.cons.inj (List.append_cancel_left hpath)).2
  · rw [child_toList, child_toList, List.append_assoc, List.cons_append] at hrest
    have hcut := (List.cons.inj (List.append_cancel_left hrest)).2
    rw [hcut] at hname
    exact absurd (List.mem_append_right _ List.mem_cons_self) hname

/-- **A path and the paths above it** are the places that it lies at or below. -/
theorem mem_ancestors {hive : Hive} {path p : String} :
    p ∈ ancestors path ↔ covers (hive, p) (hive, path) = true := by
  have hcovers : covers (hive, p) (hive, path) = true ↔
      path = p ∨ ∃ rest, path.toList = p.toList ++ '\\' :: rest := by
    rw [covers_iff, Prod.mk.injEq]
    simp only [true_and]
  have hjoin : ∀ s, Text.join "\\" (Text.splitOnChar '\\' s) = s := Text.join_splitOnChar '\\'
  rw [hcovers]
  simp only [ancestors, List.mem_map, List.mem_range]
  constructor
  · rintro ⟨n, hn, rfl⟩
    have hparts := List.take_append_drop (n + 1) (Text.splitOnChar '\\' path)
    by_cases hdrop : (Text.splitOnChar '\\' path).drop (n + 1) = []
    · rw [hdrop, List.append_nil] at hparts
      rw [hparts]
      exact .inl (hjoin path).symm
    · have htake : (Text.splitOnChar '\\' path).take (n + 1) ≠ [] :=
        List.ne_nil_of_length_pos (by rw [List.length_take]; omega)
      have happend := Text.join_append "\\" htake hdrop
      rw [hparts, hjoin] at happend
      exact .inr ⟨_, happend⟩
  · have hlength : ∀ s, 0 < (Text.splitOnChar '\\' s).length := fun s =>
      List.length_pos_iff.mpr (by
        simpa [Text.splitOnChar] using Text.splitChars_ne_nil '\\' s.toList)
    rintro (rfl | ⟨rest, hrest⟩)
    · refine ⟨(Text.splitOnChar '\\' path).length - 1, by have := hlength path; omega, ?_⟩
      rw [Nat.sub_add_cancel (hlength path), List.take_length, hjoin]
    · have hsplit : Text.splitOnChar '\\' path =
          Text.splitOnChar '\\' p ++ (Text.splitChars '\\' rest).map String.ofList := by
        rw [Text.splitOnChar, hrest, Text.splitChars_cut, List.map_append]
        rfl
      refine ⟨(Text.splitOnChar '\\' p).length - 1, ?_, ?_⟩
      · have := hlength p
        rw [hsplit, List.length_append]
        omega
      · rw [Nat.sub_add_cancel (hlength p), hsplit, List.take_left, hjoin]

/-! ## Keeping keys -/

/-- The tree with some of its keys. -/
def keep (t : RegistryTree) (p : KeyPlace → Bool) : RegistryTree :=
  { t with keys := t.keys.filter fun e => p e.1 }

/-- The tree without the keys below a key. -/
def emptied (t : RegistryTree) (k : KeyPlace) : RegistryTree :=
  t.keep fun k' => k' == k || !covers k k'

/-- The tree without a key and the keys below it. -/
def without (t : RegistryTree) (k : KeyPlace) : RegistryTree := t.keep fun k' => !covers k k'

variable {p q : KeyPlace → Bool}

theorem keep_congr (h : ∀ k ∈ Assoc.keys t.keys, p k = q k) : t.keep p = t.keep q := by
  have hkeys : (t.keys.filter fun e => p e.1) = t.keys.filter fun e => q e.1 :=
    List.filter_congr fun e he => h e.1 (List.mem_map_of_mem he)
  rw [keep, keep, hkeys]

theorem keep_keep : (t.keep p).keep q = t.keep fun k => p k && q k := by
  simp only [keep, List.filter_filter, Bool.and_comm]

theorem keep_self (h : ∀ k ∈ Assoc.keys t.keys, p k = true) : t.keep p = t := by
  have hkeys : (t.keys.filter fun e => p e.1) = t.keys :=
    List.filter_eq_self.mpr fun e he => h e.1 (List.mem_map_of_mem he)
  rw [keep, hkeys]

theorem keys_keep : Assoc.keys (t.keep p).keys = (Assoc.keys t.keys).filter p := by
  rw [Assoc.keys, Assoc.keys, keep, List.filter_map]
  rfl

theorem mem_keep : k ∈ Assoc.keys (t.keep p).keys ↔ k ∈ Assoc.keys t.keys ∧ p k = true := by
  rw [keys_keep, List.mem_filter]

/-- **What is left without a key**: the other keys, with the values that they had. -/
theorem get?_without (t : RegistryTree) (k k' : KeyPlace) : Assoc.get? k' (t.without k).keys =
    if covers k k' then none else Assoc.get? k' t.keys := by
  refine (Assoc.get?_filter (fun k' => !covers k k') k' t.keys).trans ?_
  cases covers k k' <;> rfl

/-! ## Trees with all keys above their keys -/

/-- Every key is stored once, and with it the keys above it. -/
structure Rooted (t : RegistryTree) : Prop where
  nodup : (Assoc.keys t.keys).Nodup
  above : ∀ k k', covers k k' = true → k' ∈ Assoc.keys t.keys → k ∈ Assoc.keys t.keys

namespace Rooted

theorem empty (denied : List KeyPlace) : Rooted { denied } where
  nodup := List.nodup_nil
  above _ _ _ h := nomatch h

/-- Only the keys count. -/
theorem of_keys (h : t.Rooted) (hkeys : Assoc.keys t'.keys = Assoc.keys t.keys) : t'.Rooted where
  nodup := hkeys ▸ h.nodup
  above := hkeys ▸ h.above

/-- With every key the keys above it are kept. -/
theorem keep (h : t.Rooted) (hp : ∀ k k', covers k k' = true → p k' = true → p k = true) :
    (t.keep p).Rooted where
  nodup := by
    rw [keys_keep]
    exact h.nodup.filter _
  above k k' hcovers hk' := by
    rw [mem_keep] at hk' ⊢
    exact ⟨h.above k k' hcovers hk'.1, hp k k' hcovers hk'.2⟩

theorem without (h : t.Rooted) (k : KeyPlace) : (t.without k).Rooted :=
  h.keep fun c k' hcovers hk' => by
    rw [Bool.not_eq_true'] at hk' ⊢
    refine Bool.eq_false_iff.mpr fun hc => ?_
    rw [covers_trans hc hcovers] at hk'
    cases hk'

/-- Without a stored key there is nothing to take away. -/
theorem without_missing (h : t.Rooted) (hk : k ∉ Assoc.keys t.keys) : t.without k = t :=
  keep_self fun k' hk' => by
    rw [Bool.not_eq_true']
    exact Bool.eq_false_iff.mpr fun hcovers => hk (h.above k k' hcovers hk')

/-- The values of a stored key may be put. -/
theorem putValues (h : t.Rooted) (hk : k ∈ Assoc.keys t.keys) (values : Assoc String StoredValue) :
    (t.putValues k values).Rooted where
  nodup := Assoc.nodup_put h.nodup
  above c k' hcovers hk' := by
    have hsame : ∀ c, c ∈ Assoc.keys (t.putValues k values).keys ↔ c ∈ Assoc.keys t.keys :=
      fun c => Assoc.mem_keys_put.trans (or_iff_right_of_imp fun hc => hc ▸ hk)
    rw [hsame] at hk' ⊢
    exact h.above c k' hcovers hk'

end Rooted

/-- Adding missing keys of a hive, one after the other. -/
theorem keys_foldl (hive : Hive) : ∀ (paths : List String)
    (keys : Assoc KeyPlace (Assoc String StoredValue)),
    let all := paths.foldl (fun keys path =>
      if Assoc.has (hive, path) keys then keys else Assoc.put (hive, path) [] keys) keys
    ((Assoc.keys keys).Nodup → (Assoc.keys all).Nodup) ∧
      ∀ c, c ∈ Assoc.keys all ↔ c ∈ Assoc.keys keys ∨ ∃ path ∈ paths, c = (hive, path) := by
  intro paths
  induction paths with
  | nil => exact fun keys => ⟨id, fun c => by simp⟩
  | cons path paths ih =>
    intro keys
    obtain ⟨hnodup, hmem⟩ := ih
      (if Assoc.has (hive, path) keys then keys else Assoc.put (hive, path) [] keys)
    refine ⟨fun h => hnodup ?_, fun c => (hmem c).trans ?_⟩
    · split
      · exact h
      · exact Assoc.nodup_put h
    · have hstep : c ∈ Assoc.keys (if Assoc.has (hive, path) keys then keys
            else Assoc.put (hive, path) [] keys) ↔ c ∈ Assoc.keys keys ∨ c = (hive, path) := by
        split
        · next hhas => exact (or_iff_left_of_imp fun hc => hc ▸ Assoc.has_iff.mp hhas).symm
        · exact Assoc.mem_keys_put.trans or_comm
      rw [hstep, or_assoc]
      simp only [List.mem_cons, exists_eq_or_imp]

/-- The keys after adding are those before, and the key with the keys above it. -/
theorem mem_keys_add : c ∈ Assoc.keys (t.add k).keys ↔
    c ∈ Assoc.keys t.keys ∨ covers c k = true := by
  refine ((keys_foldl k.1 (ancestors k.2) t.keys).2 c).trans (or_congr_right ?_)
  constructor
  · rintro ⟨path, hpath, rfl⟩
    exact mem_ancestors.mp hpath
  · intro hcovers
    have hhive : k.1 = c.1 := by
      rcases covers_iff.mp hcovers with rfl | ⟨hhive, -⟩
      · rfl
      · exact hhive
    have hc : c = (k.1, c.2) := Prod.ext hhive.symm rfl
    rw [hc] at hcovers
    exact ⟨c.2, mem_ancestors.mpr hcovers, hc⟩

theorem Rooted.add (h : t.Rooted) (k : KeyPlace) : (t.add k).Rooted where
  nodup := (keys_foldl k.1 (ancestors k.2) t.keys).1 h.nodup
  above c k' hcovers hk' := by
    rw [mem_keys_add] at hk' ⊢
    exact hk'.imp (h.above c k' hcovers) (covers_trans hcovers)

/-- A described key may be added to a tree. -/
theorem Rooted.describeKey (h : t.Rooted) {d : Datum} (hd : t.describeKey d = .ok t') :
    t'.Rooted := by
  obtain ⟨hive, -, hd⟩ := ok_of_bind hd
  obtain ⟨k, -, hd⟩ := ok_of_bind hd
  obtain ⟨values, -, hd⟩ := ok_of_bind hd
  cases hd
  exact (h.add k).putValues (mem_keys_add.mpr (.inr (covers_self k))) values

/-- **A described registry is a tree**. -/
theorem rooted_of_ofDatum {d : Datum} (h : ofDatum d = .ok t) : t.Rooted := by
  have hkeys : ∀ (ds : List Datum) {t t' : RegistryTree}, t.Rooted →
      ds.foldlM describeKey t = .ok t' → t'.Rooted := by
    intro ds
    induction ds with
    | nil =>
      intro t t' ht h
      cases h
      exact ht
    | cons d ds ih =>
      intro t t' ht h
      rw [List.foldlM_cons] at h
      obtain ⟨t₁, hd, h⟩ := ok_of_bind h
      exact ih (ht.describeKey hd) h
  obtain ⟨t₀, h₀, h⟩ := ok_of_bind h
  obtain ⟨denied, -, h⟩ := ok_of_bind h
  cases h
  exact (hkeys _ (.empty []) h₀).of_keys rfl

/-! ## The keys directly below a key -/

/-- The name of a place directly below a key. -/
def nameBelow? (k k' : KeyPlace) : Option String :=
  let above := (k.2 ++ "\\").toList
  let rest := k'.2.toList.drop above.length
  if k'.1 = k.1 && above.isPrefixOf k'.2.toList && !rest.contains '\\' then
    some (String.ofList rest)
  else none

theorem nameBelow?_eq_some : nameBelow? k k' = some name ↔
    '\\' ∉ name.toList ∧ k' = child k name := by
  have habove : (k.2 ++ "\\").toList = k.2.toList ++ ['\\'] := by simp
  unfold nameBelow?
  dsimp only
  rw [Option.ite_none_right_eq_some, Option.some.injEq]
  simp only [Bool.and_eq_true, decide_eq_true_eq, List.isPrefixOf_iff_prefix, Bool.not_eq_true',
    List.contains_eq_mem, decide_eq_false_iff_not]
  constructor
  · rintro ⟨⟨⟨hhive, rest, hrest⟩, hname⟩, rfl⟩
    rw [← hrest, List.drop_left] at hname ⊢
    refine ⟨by rwa [String.toList_ofList], Prod.ext hhive (String.toList_inj.mp ?_)⟩
    rw [child_toList, String.toList_ofList, ← hrest, habove, List.append_assoc,
      List.singleton_append]
  · rintro ⟨hname, rfl⟩
    have hpath : (child k name).2.toList = (k.2 ++ "\\").toList ++ name.toList := by
      rw [child_toList, habove, List.append_assoc, List.singleton_append]
    rw [hpath, List.drop_left, String.ofList_toList]
    exact ⟨⟨⟨rfl, List.prefix_append _ _⟩, hname⟩, rfl⟩

theorem subkeys_eq : t.subkeys k = Text.sort ((Assoc.keys t.keys).filterMap (nameBelow? k)) := by
  rw [subkeys, Assoc.keys, List.filterMap_map]
  rfl

/-- **The keys directly below a key** are its stored children. -/
theorem mem_subkeys : name ∈ t.subkeys k ↔
    '\\' ∉ name.toList ∧ child k name ∈ Assoc.keys t.keys := by
  simp only [subkeys_eq, Text.sort, List.mem_mergeSort, List.mem_filterMap, nameBelow?_eq_some]
  exact ⟨fun ⟨_, hmem, hname, h⟩ => ⟨hname, h ▸ hmem⟩, fun ⟨hname, hmem⟩ => ⟨_, hmem, hname, rfl⟩⟩

theorem Rooted.nodup_subkeys (h : t.Rooted) (k : KeyPlace) : (t.subkeys k).Nodup := by
  rw [subkeys_eq, Text.sort, (List.mergeSort_perm _ _).nodup_iff]
  refine h.nodup.filterMap fun a b name ha hb => ?_
  rw [(nameBelow?_eq_some.mp ha).2, (nameBelow?_eq_some.mp hb).2]

theorem length_subkeys_le (t : RegistryTree) (k : KeyPlace) :
    (t.subkeys k).length ≤ t.keys.length := by
  rw [subkeys, Text.sort, List.length_mergeSort]
  exact List.length_filterMap_le _ _

/-- What is below a key is at or below one of the keys directly below it. -/
theorem Rooted.keep_children (h : t.Rooted) (k : KeyPlace) :
    (t.keep fun k' => !(t.subkeys k).any fun name => covers (child k name) k') = t.emptied k := by
  refine keep_congr fun k' hk' => ?_
  by_cases hbelow : covers k k' = true ∧ k' ≠ k
  · obtain ⟨name, hplain, hname⟩ := exists_child hbelow.1 hbelow.2
    have hany : (t.subkeys k).any (fun name => covers (child k name) k') = true :=
      List.any_eq_true.mpr ⟨name, mem_subkeys.mpr ⟨hplain, h.above _ _ hname hk'⟩, hname⟩
    rw [hany, hbelow.1, beq_false_of_ne hbelow.2]
    rfl
  · have hnone : (t.subkeys k).any (fun name => covers (child k name) k') = false := by
      refine Bool.eq_false_iff.mpr fun hany => hbelow ?_
      obtain ⟨name, -, hname⟩ := List.any_eq_true.mp hany
      refine ⟨covers_trans (covers_child k name) hname, ?_⟩
      rintro rfl
      rw [not_covers_of_child] at hname
      cases hname
    have hkept : (k' == k || !covers k k') = true := by
      rw [Bool.or_eq_true, beq_iff_eq, Bool.not_eq_true']
      by_cases hk : k' = k
      · exact .inl hk
      · exact .inr (Bool.eq_false_iff.mpr fun hcovers => hbelow ⟨hcovers, hk⟩)
    rw [hnone, hkept]
    rfl

/-- Without keys directly below it there is none below a key. -/
theorem Rooted.eq_of_bare (h : t.Rooted) (hbare : t.subkeys k = []) (hcovers : covers k k' = true)
    (hk' : k' ∈ Assoc.keys t.keys) : k' = k := by
  by_contra hne
  obtain ⟨name, hplain, hname⟩ := exists_child hcovers hne
  have hmem : name ∈ t.subkeys k := mem_subkeys.mpr ⟨hplain, h.above _ _ hname hk'⟩
  rw [hbare] at hmem
  cases hmem

/-- Without keys below it a key is removed. -/
theorem Rooted.removeLeaf_of_bare (h : t.Rooted) (hk : k ∈ Assoc.keys t.keys)
    (hbare : t.subkeys k = []) : t.removeLeaf k = .ok (t.without k) := by
  have hkeys : Assoc.erase k t.keys = (t.without k).keys := by
    refine List.filter_congr fun e he => ?_
    have hcovers : covers k e.1 = decide (e.1 = k) := by
      rw [Bool.eq_iff_iff, decide_eq_true_iff]
      exact ⟨fun hc => h.eq_of_bare hbare hc (List.mem_map_of_mem he), fun e => e ▸ covers_self _⟩
    exact decide_not.trans (congrArg (!·) hcovers.symm)
  rw [removeLeaf, hbare, List.isEmpty_nil, Bool.not_true, if_neg Bool.false_ne_true,
    if_pos (Assoc.has_iff.mpr hk), hkeys]
  rfl

/-- Removing a key without keys below it leaves a tree. -/
theorem Rooted.removeLeaf (h : t.Rooted) (ht : t.removeLeaf k = .ok t') : t'.Rooted := by
  have hremoved := ht
  rw [RegistryTree.removeLeaf] at ht
  split at ht
  · cases ht
  · next hbare =>
    split at ht
    · next hk =>
      rw [h.removeLeaf_of_bare (Assoc.has_iff.mp hk) (by simpa using hbare)] at hremoved
      cases hremoved
      exact h.without k
    · cases ht

theorem Rooted.emptied (h : t.Rooted) (k : KeyPlace) : (t.emptied k).Rooted :=
  h.keep fun c k' hcovers hk' => by
    rw [Bool.or_eq_true, beq_iff_eq, Bool.not_eq_true'] at hk' ⊢
    by_cases hc : covers k c = true
    · refine .inl (hk'.elim (fun e => eq_of_covers hc (e ▸ hcovers)) fun hnot => ?_)
      rw [covers_trans hc hcovers] at hnot
      cases hnot
    · exact .inr (Bool.eq_false_iff.mpr hc)

/-- When nothing is below a key any more, it can be removed. -/
theorem Rooted.removeLeaf_emptied (h : t.Rooted) (hk : k ∈ Assoc.keys t.keys) :
    (t.emptied k).removeLeaf k = .ok (t.without k) := by
  have hstored : k ∈ Assoc.keys (t.emptied k).keys :=
    mem_keep.mpr ⟨hk, by rw [beq_self_eq_true, Bool.true_or]⟩
  have hbare : (t.emptied k).subkeys k = [] := by
    refine List.eq_nil_iff_forall_not_mem.mpr fun name hname => ?_
    have hkept := (mem_keep.mp (mem_subkeys.mp hname).2).2
    rw [covers_child, beq_false_of_ne (child_ne k name)] at hkept
    cases hkept
  have hwithout : (t.emptied k).without k = t.without k := by
    rw [RegistryTree.without, RegistryTree.emptied, keep_keep]
    refine keep_congr fun k' _ => ?_
    cases covers k k' <;> simp
  rw [(h.emptied k).removeLeaf_of_bare hstored hbare, hwithout]

end RegistryTree
end TweakEngine
