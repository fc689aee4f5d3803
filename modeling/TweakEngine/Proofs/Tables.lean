/-
# Facts about tables

What looking up, putting and taking over pairs does to the keys and entries of a table.  A
table whose keys are different is the table of its pairs (`Assoc.ofList_of_nodup`), and
each of its entries is found under its key (`Assoc.get?_of_mem`).
-/

import TweakEngine.Assoc

namespace TweakEngine
namespace Assoc

variable {κ α : Type} [DecidableEq κ]

/-! ## Looking up -/

theorem get?_of_mem {k : κ} {a : α} :
    ∀ {t : Assoc κ α}, (keys t).Nodup → (k, a) ∈ t → get? k t = some a
  | (k', a') :: t, hn, h => by
    obtain ⟨hnew, hn⟩ := List.nodup_cons.mp hn
    rcases List.mem_cons.mp h with e | h
    · obtain ⟨rfl, rfl⟩ := Prod.mk.inj e
      rw [get?, if_pos rfl]
    · have hne : k' ≠ k := fun e => hnew (List.mem_map.mpr ⟨(k, a), h, e.symm⟩)
      rw [get?, if_neg hne, get?_of_mem hn h]

theorem get?_eq_none {k : κ} : ∀ {t : Assoc κ α}, k ∉ keys t → get? k t = none
  | [], _ => rfl
  | (k', a') :: t, h => by
    obtain ⟨hne, h⟩ := not_or.mp (mt List.mem_cons.mpr h)
    rw [get?, if_neg (Ne.symm hne), get?_eq_none h]

theorem mem_of_get? {k : κ} {a : α} : ∀ {t : Assoc κ α}, get? k t = some a → (k, a) ∈ t
  | (k', a') :: t, h => by
    rw [get?] at h
    split at h
    · next e => rw [← e, ← Option.some.inj h]; exact List.mem_cons_self
    · exact List.mem_cons_of_mem _ (mem_of_get? h)

/-- The key of an entry is a key of the table. -/
theorem has_of_mem {e : κ × α} : ∀ {t : Assoc κ α}, e ∈ t → has e.1 t = true
  | (k', a') :: t, h => by
    by_cases hk : k' = e.1
    · rw [has, get?, if_pos hk]
      rfl
    · rcases List.mem_cons.mp h with rfl | h
      · exact absurd rfl hk
      · have ih : has e.1 t = true := has_of_mem h
        rw [has, get?, if_neg hk]
        exact ih

theorem has_iff {k : κ} {t : Assoc κ α} : has k t = true ↔ k ∈ keys t := by
  constructor
  · intro h
    refine Decidable.byContradiction fun hk => ?_
    rw [has, get?_eq_none hk] at h
    cases h
  · intro hk
    obtain ⟨e, he, rfl⟩ := List.mem_map.mp hk
    exact has_of_mem he

/-- Keeping the entries whose keys satisfy a test keeps the values of these keys. -/
theorem get?_filter (p : κ → Bool) (k : κ) (t : Assoc κ α) :
    get? k (t.filter fun e => p e.1) = if p k then get? k t else none := by
  induction t with
  | nil => simp [get?]
  | cons e t ih =>
    obtain ⟨k₀, a⟩ := e
    by_cases hk : k₀ = k
    · subst hk
      by_cases hp : p k₀
      · simp [hp, get?]
      · simp only [List.filter_cons, hp]
        simpa [hp] using ih
    · by_cases hp : p k₀
      · simp [hp, get?, hk, ih]
      · simp [hp, get?, hk, ih]

theorem get?_map {β : Type} (f : α → β) (k : κ) (t : Assoc κ α) :
    get? k (t.map fun e => (e.1, f e.2)) = (get? k t).map f := by
  induction t with
  | nil => rfl
  | cons e t ih =>
    rw [List.map_cons, get?, get?, ih]
    split <;> rfl

/-- A key that is missing has nothing to take out. -/
theorem erase_missing {k : κ} : ∀ {t : Assoc κ α}, get? k t = none → erase k t = t
  | [], _ => rfl
  | (k', a') :: t, h => by
    rw [get?] at h
    split at h
    · cases h
    · next hne =>
      have ih : List.filter (fun e => decide (e.1 ≠ k)) t = t := erase_missing h
      rw [erase, List.filter_cons_of_pos (by simpa using hne), ih]

/-! ## Putting -/

/-- Putting the value that a key has changes nothing. -/
theorem put_get? {k : κ} {a : α} : ∀ {t : Assoc κ α}, get? k t = some a → put k a t = t
  | (k', a') :: t, h => by
    rw [get?] at h
    split at h
    · next e => rw [put, if_pos e, Option.some.inj h]
    · next hne => rw [put, if_neg hne, put_get? h]

theorem has_put (k k' : κ) (a : α) (t : Assoc κ α) :
    has k' (put k a t) = (decide (k = k') || has k' t) := by
  unfold has
  rw [get?_put]
  by_cases h : k = k' <;> simp [h]

/-- A new key is put at the end. -/
theorem put_new {k : κ} {a : α} : ∀ {t : Assoc κ α}, k ∉ keys t → put k a t = t ++ [(k, a)]
  | [], _ => rfl
  | (k', a') :: t, h => by
    rw [keys, List.map_cons, List.mem_cons, not_or] at h
    rw [put, if_neg (Ne.symm h.1), put_new h.2, List.cons_append]

theorem mem_keys_put {k k' : κ} {a : α} {t : Assoc κ α} :
    k' ∈ keys (put k a t) ↔ k' = k ∨ k' ∈ keys t := by
  induction t with
  | nil => simp [put, keys]
  | cons e t ih =>
    obtain ⟨k₀, a₀⟩ := e
    simp only [keys] at ih ⊢
    by_cases h : k₀ = k
    · subst h; simp [put]
    · simp only [put, h, if_false, List.map_cons, List.mem_cons, ih]
      exact or_left_comm

theorem nodup_put {k : κ} {a : α} {t : Assoc κ α} (h : (keys t).Nodup) : (keys (put k a t)).Nodup := by
  induction t with
  | nil => simp [put, keys]
  | cons e t ih =>
    obtain ⟨k₀, a₀⟩ := e
    obtain ⟨hnew, ht⟩ := List.nodup_cons.mp h
    by_cases hk : k₀ = k
    · subst hk; simpa [put, keys] using h
    · rw [put, if_neg hk]
      refine List.nodup_cons.mpr ⟨fun hmem => ?_, ih ht⟩
      rcases mem_keys_put.mp hmem with e | hmem
      · exact hk e
      · exact hnew hmem

theorem mem_put {k : κ} {a : α} {t : Assoc κ α} {e : κ × α} (h : e ∈ put k a t) :
    e.2 = a ∨ e ∈ t := by
  induction t with
  | nil => exact .inl (congrArg Prod.snd (List.mem_singleton.mp h))
  | cons e₀ t ih =>
    obtain ⟨k₀, a₀⟩ := e₀
    by_cases hk : k₀ = k
    · rw [put, if_pos hk] at h
      rcases List.mem_cons.mp h with rfl | h
      · exact .inl rfl
      · exact .inr (List.mem_cons_of_mem _ h)
    · rw [put, if_neg hk] at h
      rcases List.mem_cons.mp h with rfl | h
      · exact .inr List.mem_cons_self
      · exact (ih h).imp_right (List.mem_cons_of_mem _)

/-! ## Tables of pairs -/

theorem update_append : ∀ {es t : Assoc κ α}, (keys (t ++ es)).Nodup → update t es = t ++ es
  | [], t, _ => (List.append_nil t).symm
  | e :: es, t, h => by
    have hkeys : keys (t ++ e :: es) = keys t ++ e.1 :: keys es := by simp [keys]
    have hnew : e.1 ∉ keys t := fun hmem =>
      (List.nodup_append.mp (hkeys ▸ h)).2.2 e.1 hmem e.1 List.mem_cons_self rfl
    have hstep : update t (e :: es) = update (put e.1 e.2 t) es := rfl
    have hcons : t ++ e :: es = (t ++ [e]) ++ es := by simp
    rw [hstep, put_new hnew, update_append (hcons ▸ h), hcons]

/-- A table with different keys is the table of its pairs. -/
theorem ofList_of_nodup {t : Assoc κ α} (h : (keys t).Nodup) : ofList t = t := update_append h

/-- The values of a table made of pairs are among those of the pairs. -/
theorem mem_update {e : κ × α} : ∀ {u : List (κ × α)} {t : Assoc κ α}, e ∈ update t u →
    e ∈ t ∨ ∃ e' ∈ u, e.2 = e'.2
  | [], _, h => .inl h
  | e₀ :: u, t, h => by
    rcases mem_update (u := u) h with h | ⟨e', he', h⟩
    · exact (mem_put h).symm.imp id fun h => ⟨e₀, List.mem_cons_self, h⟩
    · exact .inr ⟨e', List.mem_cons_of_mem _ he', h⟩

/-- What a table made of pairs holds under a key is the value of one of the pairs with it. -/
theorem mem_of_get?_update {k : κ} {a : α} : ∀ {u : List (κ × α)} {t : Assoc κ α},
    get? k (update t u) = some a → (k, a) ∈ u ∨ get? k t = some a
  | [], _, h => .inr h
  | (k₀, a₀) :: u, t, h => by
    rcases mem_of_get?_update (u := u) h with h | h
    · exact .inl (List.mem_cons_of_mem _ h)
    · rw [get?_put] at h
      split at h
      · next hk => cases h; exact .inl (hk ▸ List.mem_cons_self)
      · exact .inr h

theorem mem_of_get?_ofList {k : κ} {a : α} {es : List (κ × α)} (h : get? k (ofList es) = some a) :
    (k, a) ∈ es :=
  (mem_of_get?_update h).resolve_right nofun

theorem nodup_update : ∀ {u t : Assoc κ α}, (keys t).Nodup → (keys (update t u)).Nodup
  | [], _, h => h
  | _ :: u, _, h => nodup_update (u := u) (nodup_put h)

/-- Pairs with other keys do not count. -/
theorem get?_update_absent {k : κ} : ∀ {u t : Assoc κ α}, k ∉ keys u →
    get? k (update t u) = get? k t
  | [], _, _ => rfl
  | (k₀, a₀) :: u, t, h => by
    rw [keys, List.map_cons, List.mem_cons, not_or] at h
    refine (get?_update_absent (u := u) h.2).trans ?_
    rw [get?_put, if_neg (Ne.symm h.1)]

/-- Of the pairs with one key the last one counts. -/
theorem get?_update_last {k : κ} {a : α} {before after : List (κ × α)} {t : Assoc κ α}
    (h : k ∉ keys after) : get? k (update t (before ++ (k, a) :: after)) = some a := by
  have hsplit : update t (before ++ (k, a) :: after) =
      update (put k a (update t before)) after := by
    rw [update, List.foldl_append]
    rfl
  rw [hsplit, get?_update_absent h, get?_put, if_pos rfl]

/-- Among pairs with a key there is a last one. -/
theorem exists_last {k : κ} : ∀ {u : List (κ × α)}, k ∈ keys u →
    ∃ before a after, u = before ++ (k, a) :: after ∧ k ∉ keys after
  | (k₀, a₀) :: u, h => by
    by_cases hu : k ∈ keys u
    · obtain ⟨before, a, after, rfl, hlast⟩ := exists_last hu
      exact ⟨(k₀, a₀) :: before, a, after, rfl, hlast⟩
    · rw [keys, List.map_cons, List.mem_cons] at h
      obtain rfl := h.resolve_right hu
      exact ⟨[], a₀, u, rfl, hu⟩

/-- What a table updated by another one holds. -/
theorem get?_update_table {k : κ} : ∀ {u t : Assoc κ α}, (keys u).Nodup →
    get? k (update t u) = (get? k u).or (get? k t)
  | [], _, _ => rfl
  | (k₀, a₀) :: u, t, h => by
    obtain ⟨hnew, hu⟩ := List.nodup_cons.mp h
    refine (get?_update_table (u := u) hu).trans ?_
    rw [get?_put, get?]
    by_cases hk : k₀ = k
    · subst hk
      rw [if_pos rfl, if_pos rfl, get?_eq_none hnew]
      rfl
    · rw [if_neg hk, if_neg hk]

end Assoc
end TweakEngine
