/-
# Tables that keep their order

A table is a list of pairs in the order in which keys were first put.  Putting a key
that is present replaces its value and leaves it in its place, so the order of the
keys shows the order of first use.  `get?_put` and `get?_erase` say what reading
gives afterwards.
-/

namespace TweakEngine

/-- Pairs of keys and values in order of first use. -/
abbrev Assoc (κ α : Type) := List (κ × α)

namespace Assoc

variable {κ α β : Type} [DecidableEq κ]

/-- The value of a key. -/
def get? (k : κ) : Assoc κ α → Option α
  | [] => none
  | (k', a) :: rest => if k' = k then some a else get? k rest

/-- Whether a key is present. -/
def has (k : κ) (t : Assoc κ α) : Bool := (get? k t).isSome

/-- Gives a key a value, in its place or at the end. -/
def put (k : κ) (a : α) : Assoc κ α → Assoc κ α
  | [] => [(k, a)]
  | (k', a') :: rest => if k' = k then (k', a) :: rest else (k', a') :: put k a rest

/-- Takes a key out. -/
def erase (k : κ) (t : Assoc κ α) : Assoc κ α := t.filter fun e => e.1 ≠ k

/-- Puts every pair of `u` in order. -/
def update (t u : Assoc κ α) : Assoc κ α := u.foldl (fun t e => put e.1 e.2 t) t

/-- The table of a list of pairs; of two pairs with one key the later value counts. -/
def ofList (es : List (κ × α)) : Assoc κ α := update [] es

/-- The keys in order. -/
def keys (t : Assoc κ α) : List κ := t.map Prod.fst

/-- The values in order. -/
def values (t : Assoc κ α) : List α := t.map Prod.snd

theorem get?_put (k k' : κ) (a : α) (t : Assoc κ α) :
    get? k' (put k a t) = if k = k' then some a else get? k' t := by
  induction t with
  | nil => simp [put, get?]
  | cons e t ih =>
    obtain ⟨k₀, a₀⟩ := e
    by_cases h : k₀ = k
    · subst h; by_cases h' : k₀ = k' <;> simp [put, get?, h']
    · by_cases h' : k₀ = k'
      · subst h'; simp [put, get?, h, Ne.symm h]
      · simp [put, get?, h, h', ih]

theorem get?_erase (k k' : κ) (t : Assoc κ α) :
    get? k' (erase k t) = if k = k' then none else get? k' t := by
  induction t with
  | nil => simp [erase, get?]
  | cons e t ih =>
    obtain ⟨k₀, a₀⟩ := e
    have ih' : get? k' (List.filter (fun e => decide (e.1 ≠ k)) t) = _ := ih
    by_cases h : k₀ = k
    · subst h
      by_cases h' : k₀ = k' <;> simp_all [erase, get?]
    · by_cases h' : k₀ = k'
      · subst h'; simp [erase, get?, h, Ne.symm h]
      · by_cases hk : k = k' <;> simp_all [erase, get?]

end Assoc
end TweakEngine
