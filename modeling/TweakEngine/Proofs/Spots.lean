/-
# The spots of a machine

What can be seen of a machine in memory apart from its scripts: which keys, values, files and
directories there are, with their contents, and the state and startup type of each service.
Every write but a copy and a renaming overwrites some spots with contents of its own and
leaves the others alone (`Machine.holding_apply`).  Which services there are, their names and
the settings of the machine stay for good (`Machine.Kin`).
-/

import TweakEngine.Proofs.MachineView

namespace TweakEngine

/-- Something that can be seen of a machine. -/
inductive Spot
  | key (k : Hive × String)
  | value (k : Hive × String) (name : String)
  | state (service : String)
  | startup (service : String)
  | file (path : String)
  | directory (path : String)

/-- The key that a spot belongs to. -/
def Spot.key? : Spot → Option (Hive × String)
  | key k | value k _ => some k
  | _ => none

/-- What a spot can hold. -/
abbrev Spot.Holding : Spot → Type
  | key _ | directory _ => Bool
  | value .. => Option (Option RegistryValue)
  | state _ => Option RunState
  | startup _ => Option StartupType
  | file _ => Option Datum

/-- What a spot of a machine holds. -/
def Machine.holding (m : Machine) : (x : Spot) → x.Holding
  | .key k => m.hasKey k
  | .value k name => m.stored k name
  | .state service => (Assoc.get? service m.services).map Machine.Service.state
  | .startup service => (Assoc.get? service m.services).map Machine.Service.startup
  | .file path => Assoc.get? path m.files
  | .directory path => m.directories.contains path

namespace Write

open Machine (keyOf nameOf serviceOf atOrBelow)

/-- The writes that overwrite. -/
def overwrites : Write → Bool
  | movePath .. | copyPath .. => false
  | _ => true

/-- What a write puts at a spot, if it is about the spot. -/
def sets (w : Write) (x : Spot) : Option x.Holding :=
  match w, x with
  | setValue hive path _ _, .key k => if keyOf hive path = k then some true else none
  | setValue hive path name v, .value k n =>
    if k = keyOf hive path ∧ n = nameOf name then some (some (some v)) else none
  | deleteValue hive path name, .value k n =>
    if k = keyOf hive path ∧ n = nameOf name then some none else none
  | createKey hive path, .key k => if keyOf hive path = k then some true else none
  | deleteKey hive path, .key k => if atOrBelow hive (keyOf hive path).2 k then some false else none
  | deleteKey hive path, .value k _ =>
    if atOrBelow hive (keyOf hive path).2 k then some none else none
  | stopService service, .state n => if serviceOf service = n then some (some .stopped) else none
  | startService service, .state n => if serviceOf service = n then some (some .running) else none
  | setStartup service startup, .startup n =>
    if serviceOf service = n then some (some startup) else none
  | writeFile (.text path) content _, .file p => if path = p then some (some content) else none
  | createDirectory (.text path), .directory p => if path = p then some true else none
  | deletePath (.text path), .file p => if path = p then some none else none
  | deletePath (.text path), .directory p => if path = p then some false else none
  | _, _ => none

/-- Where a write to the registry goes. -/
def place? : Write → Option (Hive × Datum)
  | setValue hive path _ _ | deleteValue hive path _ | createKey hive path | deleteKey hive path =>
    some (hive, path)
  | _ => none

end Write

namespace Machine

variable {m m' m'' : Machine} {w : Write} {r : w.Reply}

/-- What a default leaves of a choice. -/
theorem getD_ite {α : Type} {c : Prop} [Decidable c] (a b : α) :
    (if c then some a else none).getD b = if c then a else b := by split <;> rfl

theorem getD_ite_true (c : Prop) [Decidable c] (b : Bool) :
    (if c then some true else none).getD b = (decide c || b) := by
  rw [getD_ite]
  by_cases h : c <;> simp [h]

theorem of_ite_ne_none {α : Type} {c : Prop} [Decidable c] {a : α}
    (h : (if c then some a else none) ≠ none) : c :=
  Decidable.byContradiction fun hc => h (if_neg hc)

theorem holding_registry (hw : w.isRegistry = true) (h : m.apply w = .ok (r, m')) (x : Spot) :
    m'.holding x = (w.sets x).getD (m.holding x) := by
  have honly := apply_registry_only hw h
  cases w with
  | setValue hive path name v =>
    obtain ⟨p, hp, h'⟩ := ok_of_bind h
    obtain ⟨n, hn, -⟩ := ok_of_bind h'
    obtain ⟨path, rfl, rfl⟩ := eq_text_of_folded hp
    obtain rfl := eq_nameOf_of_foldedName hn
    obtain ⟨m₁, h₁, hstored, hkeys⟩ := m.apply_setValue hive ⟨path, rfl⟩ hn v
    cases h.symm.trans h₁
    cases x with
    | key k => exact (hkeys k).trans (getD_ite_true _ _).symm
    | value k n => exact (hstored k n).trans (getD_ite _ _).symm
    | _ => rw [honly]; rfl
  | deleteValue hive path name =>
    obtain ⟨p, hp, h'⟩ := ok_of_bind h
    obtain ⟨n, hn, -⟩ := ok_of_bind h'
    obtain ⟨path, rfl, rfl⟩ := eq_text_of_folded hp
    obtain rfl := eq_nameOf_of_foldedName hn
    obtain ⟨b, m₁, h₁, hstored, hkeys⟩ := m.apply_deleteValue hive ⟨path, rfl⟩ hn
    cases h.symm.trans h₁
    cases x with
    | key k => exact hkeys k
    | value k n => exact (hstored k n).trans (getD_ite _ _).symm
    | _ => rw [honly]; rfl
  | createKey hive path =>
    obtain ⟨p, hp, -⟩ := ok_of_bind h
    obtain ⟨path, rfl, rfl⟩ := eq_text_of_folded hp
    obtain ⟨b, m₁, h₁, hstored, hkeys⟩ := m.apply_createKey hive ⟨path, rfl⟩
    cases h.symm.trans h₁
    cases x with
    | key k => exact (hkeys k).trans (getD_ite_true _ _).symm
    | value k n => exact hstored k n
    | _ => rw [honly]; rfl
  | deleteKey hive path =>
    obtain ⟨p, hp, -⟩ := ok_of_bind h
    obtain ⟨path, rfl, rfl⟩ := eq_text_of_folded hp
    obtain ⟨b, m₁, h₁, hstored, hkeys⟩ := m.apply_deleteKey hive ⟨path, rfl⟩
    cases h.symm.trans h₁
    cases x with
    | key k =>
      refine (hkeys k).trans ?_
      rw [Write.sets, getD_ite]
      cases atOrBelow hive (keyOf hive (.text path)).2 k <;> rfl
    | value k n => exact (hstored k n).trans (getD_ite _ _).symm
    | _ => rw [honly]; rfl
  | _ => cases hw

/-- Changing a service replaces it. -/
theorem eq_of_withService {service : Datum} {f : Service → Service}
    (h : m.withService service f = .ok m') :
    ∃ x, Assoc.get? (serviceOf service) m.services = some x ∧
      m' = { m with services := Assoc.put (serviceOf service) (f x) m.services } := by
  obtain ⟨n, hn, h⟩ := ok_of_bind h
  obtain ⟨s, rfl, rfl⟩ := eq_text_of_folded hn
  split at h
  · cases h
  · next x hx => exact ⟨x, hx, (Except.ok.inj h).symm⟩

/-- What a table shows of its entries after one of them has been replaced. -/
theorem map_get?_put {α : Type} (g : Service → α) {n : String} {y : Service}
    {t : Assoc String Service} (n' : String) :
    (Assoc.get? n' (Assoc.put n y t)).map g =
      if n = n' then some (g y) else (Assoc.get? n' t).map g := by
  rw [Assoc.get?_put]
  split <;> rfl

theorem map_get?_put_same {α : Type} (g : Service → α) {n : String} {x y : Service}
    {t : Assoc String Service} (hx : Assoc.get? n t = some x) (hg : g y = g x) (n' : String) :
    (Assoc.get? n' (Assoc.put n y t)).map g = (Assoc.get? n' t).map g := by
  rw [Assoc.get?_put]
  split
  · next e => rw [← e, hx, Option.map_some, Option.map_some, hg]
  · rfl

theorem holding_service (hw : w.isService = true) (h : m.apply w = .ok (r, m')) (x : Spot) :
    m'.holding x = (w.sets x).getD (m.holding x) := by
  cases w with
  | stopService service | startService service =>
    obtain ⟨m₁, h₁, h⟩ := ok_of_bind h
    cases h
    obtain ⟨y, hy, rfl⟩ := eq_of_withService h₁
    cases x with
    | state n =>
      rw [Write.sets, getD_ite]
      exact map_get?_put Service.state n
    | startup n => exact map_get?_put_same Service.startup hy (by rfl) n
    | _ => rfl
  | setStartup service startup =>
    obtain ⟨m₁, h₁, h⟩ := ok_of_bind h
    cases h
    obtain ⟨y, hy, rfl⟩ := eq_of_withService h₁
    cases x with
    | startup n =>
      rw [Write.sets, getD_ite]
      exact map_get?_put Service.startup n
    | state n => exact map_get?_put_same Service.state hy (by rfl) n
    | _ => rfl
  | _ => cases hw

theorem contains_filter_ne (p p' : String) (ds : List String) :
    (ds.filter (· ≠ p)).contains p' = if p = p' then false else ds.contains p' := by
  by_cases h : p = p'
  · subst h; simp
  · have h' : p' ≠ p := fun e => h e.symm
    simp [h, h']

theorem holding_file (hr : w.isRegistry = false) (hs : w.isService = false)
    (hw : w.overwrites = true) (h : m.apply w = .ok (r, m')) (x : Spot) :
    m'.holding x = (w.sets x).getD (m.holding x) := by
  cases w with
  | setValue | deleteValue | createKey | deleteKey => cases hr
  | stopService | startService | setStartup => cases hs
  | movePath | copyPath => cases hw
  | runScript =>
    cases h
    cases x <;> rfl
  | writeFile path content create =>
    obtain ⟨p, hp, h⟩ := ok_of_bind h
    cases path with
    | text path =>
      cases hp
      cases h
      cases x with
      | file p => exact (Assoc.get?_put _ _ _ _).trans (getD_ite _ _).symm
      | _ => rfl
    | _ => cases hp
  | createDirectory path =>
    obtain ⟨p, hp, h⟩ := ok_of_bind h
    cases path with
    | text path =>
      cases hp
      cases h
      cases x with
      | directory d =>
        rw [Write.sets, getD_ite]
        refine (List.contains_append ..).trans ?_
        rw [contains_filter_ne]
        by_cases h : p = d
        · simp [h]
        · have h' : d ≠ p := fun e => h e.symm
          simp [h, h', holding]
      | _ => rfl
    | _ => cases hp
  | deletePath path =>
    obtain ⟨m₁, h₁, h⟩ := ok_of_bind h
    cases h
    cases path with
    | text path =>
      rw [removePath] at h₁
      split at h₁
      · cases h₁
        cases x with
        | file p => exact (Assoc.get?_erase _ _ _).trans (getD_ite _ _).symm
        | directory p => exact (contains_filter_ne _ _ _).trans (getD_ite _ _).symm
        | _ => rfl
      · cases h₁
    | _ => cases h₁

/-- A write overwrites some spots with contents of its own. -/
theorem holding_apply (hw : w.overwrites = true) (h : m.apply w = .ok (r, m')) (x : Spot) :
    m'.holding x = (w.sets x).getD (m.holding x) := by
  cases hr : w.isRegistry with
  | true => exact holding_registry hr h x
  | false =>
    cases hs : w.isService with
    | true => exact holding_service hs h x
    | false => exact holding_file hr hs hw h x

theorem atOrBelow_iff {hive : Hive} {path : String} {k : Hive × String} :
    atOrBelow hive path k = true ↔
      k.1 = hive ∧ (k.2 = path ∨ (path ++ "\\").toList <+: k.2.toList) := by
  rw [atOrBelow, Bool.and_eq_true, beq_iff_eq, Bool.or_eq_true, beq_iff_eq,
    List.isPrefixOf_iff_prefix]

theorem atOrBelow_keyOf (hive : Hive) (path : Datum) :
    atOrBelow hive (keyOf hive path).2 (keyOf hive path) = true := atOrBelow_iff.mpr ⟨rfl, .inl rfl⟩

/-- A write to the registry overwrites nothing but its key and what lies below. -/
theorem within_place {place : Hive × Datum} (hw : w.place? = some place) {x : Spot}
    (hx : w.sets x ≠ none) :
    ∃ k, x.key? = some k ∧ atOrBelow place.1 (keyOf place.1 place.2).2 k = true := by
  cases w with
  | setValue hive path name v =>
    cases hw
    cases x with
    | key k => exact ⟨k, rfl, of_ite_ne_none hx ▸ atOrBelow_keyOf hive path⟩
    | value k n => exact ⟨k, rfl, (of_ite_ne_none hx).1 ▸ atOrBelow_keyOf hive path⟩
    | _ => exact absurd rfl hx
  | deleteValue hive path name =>
    cases hw
    cases x with
    | value k n => exact ⟨k, rfl, (of_ite_ne_none hx).1 ▸ atOrBelow_keyOf hive path⟩
    | _ => exact absurd rfl hx
  | createKey hive path =>
    cases hw
    cases x with
    | key k => exact ⟨k, rfl, of_ite_ne_none hx ▸ atOrBelow_keyOf hive path⟩
    | _ => exact absurd rfl hx
  | deleteKey hive path =>
    cases hw
    cases x with
    | key k | value k n => exact ⟨k, rfl, of_ite_ne_none hx⟩
    | _ => exact absurd rfl hx
  | _ => cases hw

/-- Only the deletion of a key takes a key away, and it takes away all that lies below. -/
theorem sets_of_deleted {top : Hive × String} (hw : w.sets (.key top) = some false) :
    ∃ hive path, atOrBelow hive path top = true ∧
      ∀ x k, x.key? = some k → atOrBelow hive path k = true → w.sets x ≠ none := by
  cases w with
  | deleteKey hive path =>
    rw [Write.sets] at hw
    split at hw
    · next htop =>
      refine ⟨hive, _, htop, fun x k hk hat => ?_⟩
      cases x with
      | key k' | value k' n =>
        cases hk
        rw [Write.sets, if_pos hat]
        exact nofun
      | _ => cases hk
    · cases hw
  | setValue | createKey =>
    rw [Write.sets] at hw
    split at hw <;> cases hw
  | writeFile path | createDirectory path | deletePath path => cases path <;> cases hw
  | _ => cases hw

/-! ## What stays -/

/-- Two machines with the same settings and the same services by name. -/
structure Kin (m m' : Machine) : Prop where
  settings : m'.settings = m.settings
  names : ∀ n,
    (Assoc.get? n m'.services).map Service.name = (Assoc.get? n m.services).map Service.name

namespace Kin

theorem refl (m : Machine) : m.Kin m := ⟨rfl, fun _ => rfl⟩

theorem symm (h : m.Kin m') : m'.Kin m := ⟨h.settings.symm, fun n => (h.names n).symm⟩

theorem trans (h : m.Kin m') (h' : m'.Kin m'') : m.Kin m'' :=
  ⟨h'.settings.trans h.settings, fun n => (h'.names n).trans (h.names n)⟩

/-- Every write leaves the settings and the names of the services as they are. -/
theorem apply (h : m.apply w = .ok (r, m')) : m.Kin m' := by
  cases hr : w.isRegistry with
  | true => rw [apply_registry_only hr h]; exact ⟨rfl, fun _ => rfl⟩
  | false =>
    cases hs : w.isService with
    | false =>
      obtain ⟨hsettings, -, hservices⟩ := apply_other_frame hr hs h
      exact ⟨hsettings, fun n => by rw [hservices]⟩
    | true =>
      cases w with
      | stopService service | startService service | setStartup service startup =>
        obtain ⟨m₁, h₁, h⟩ := ok_of_bind h
        cases h
        obtain ⟨y, hy, rfl⟩ := eq_of_withService h₁
        exact ⟨rfl, map_get?_put_same Service.name hy rfl⟩
      | _ => cases hs

end Kin

/-- Two machines of which the same can be seen. -/
structure Same (m m' : Machine) : Prop where
  keys : ∀ k, m'.hasKey k = m.hasKey k
  values : ∀ k n, m'.stored k n = m.stored k n
  services : ∀ n, Assoc.get? n m'.services = Assoc.get? n m.services
  files : ∀ p, Assoc.get? p m'.files = Assoc.get? p m.files
  directories : ∀ p, p ∈ m'.directories ↔ p ∈ m.directories

theorem eq_of_map {x y : Option Service} (hname : x.map Service.name = y.map Service.name)
    (hstate : x.map Service.state = y.map Service.state)
    (hstartup : x.map Service.startup = y.map Service.startup) : x = y := by
  cases x with
  | none => cases y with
    | none => rfl
    | some y => cases hname
  | some x => cases y with
    | none => cases hname
    | some y =>
      obtain ⟨_, _, _⟩ := x
      obtain ⟨_, _, _⟩ := y
      cases hname
      cases hstate
      cases hstartup
      rfl

/-- Related machines are the same when all their spots are. -/
theorem Kin.same (h : m.Kin m') (hspots : m'.holding = m.holding) : m.Same m' where
  keys k := congrFun hspots (.key k)
  values k n := congrFun hspots (.value k n)
  services n := eq_of_map (h.names n) (congrFun hspots (.state n)) (congrFun hspots (.startup n))
  files p := congrFun hspots (.file p)
  directories p := by
    have hp : m'.directories.contains p = m.directories.contains p :=
      congrFun hspots (.directory p)
    rw [← List.contains_iff_mem, ← List.contains_iff_mem, hp]

end Machine
end TweakEngine
