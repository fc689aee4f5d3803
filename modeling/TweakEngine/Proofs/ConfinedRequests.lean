/-
# Requests that stay out of a hive

What is asked of a system about anything else than the hive of the current user does not depend on
that hive and does not change it.  `Mutator.Apart` says so of a mutator, for a view `out` that
hides the hive and a view `own` of the hive alone, and the machine in memory is apart
(`Machine.mutator_apart`).  A mutator that logs what is asked of it (`Mutator.logged`) is apart if
the mutator below it is.
-/

import TweakEngine.Proofs.HushedCalls
import TweakEngine.Proofs.Requests
import TweakEngine.Proofs.Tables
import TweakEngine.Proofs.UntouchedHive

namespace TweakEngine

open Session

variable {μ γ δ α β : Type}

/-! ## Views of the machine -/

/-- The host with what a view shows of its machine. -/
def Host.map (f : μ → γ) (h : Host μ) : Host γ := { h with machine := f h.machine }

/-- The session with what a view shows of its machine. -/
def Session.map (f : μ → γ) (s : Session μ) : Session γ := { s with host := s.host.map f }

theorem Host.map_eq {f : μ → γ} {h h' : Host μ} : h.map f = h'.map f ↔
    f h.machine = f h'.machine ∧ h.disk = h'.disk ∧ h.clock = h'.clock ∧ h.answers = h'.answers ∧
      h.trail = h'.trail := by
  cases h
  cases h'
  simp [map]

theorem Session.map_eq {f : μ → γ} {s s' : Session μ} : s.map f = s'.map f ↔
    s.host.map f = s'.host.map f ∧ s.memory = s'.memory ∧ s.store = s'.store := by
  cases s
  cases s'
  simp [map]

/-- The action does not look at what `out` hides of the machine, and leaves what `own` shows of it
as it was. -/
structure Confined (out : μ → γ) (own : μ → δ) (a : Call μ α) : Prop where
  blind : a.DependsOn (Host.map out)
  keeps : a.Keeps fun h => own h.machine

/-- A request that is not about the hive of the current user does not look at what `out` hides,
and leaves what `own` shows as it was. -/
structure Mutator.Apart (m : Mutator μ) (out : μ → γ) (own : μ → δ) : Prop where
  readValue : ∀ {hive}, hive ≠ .currentUser → ∀ path name,
    Confined out own (m.readValue hive path name)
  keyExists : ∀ {hive}, hive ≠ .currentUser → ∀ path, Confined out own (m.keyExists hive path)
  queryService : ∀ service, Confined out own (m.queryService service)
  pathExists : ∀ path, Confined out own (m.pathExists path)
  readText : ∀ path, Confined out own (m.readText path)
  write : ∀ {w}, w.elsewhere = true → Confined out own (m.write w)

section

variable {out : μ → γ} {own : μ → δ}

namespace Confined

theorem throw (f : Failure) : Confined out own (MonadExcept.throw f : Call μ α) :=
  ⟨.throw f, .throw f⟩

theorem pure (x : α) : Confined out own (Pure.pure x : Call μ α) := ⟨.pure x, .pure x⟩

theorem bind {a : Call μ α} {k : α → Call μ β} (ha : Confined out own a)
    (hk : ∀ x, Confined out own (k x)) : Confined out own (a >>= k) :=
  ⟨.bind ha.blind fun x => (hk x).blind, .bind ha.keeps fun x => (hk x).keeps⟩

/-- An action on the machine alone. -/
theorem onMachine {a : Act μ α} (hblind : a.DependsOn out) (hkeeps : a.Keeps own) :
    Confined out own (Host.onMachine a) where
  blind := by
    intro h h' hh
    obtain ⟨hmachine, hrest⟩ := Host.map_eq.mp hh
    obtain ⟨hr, hafter⟩ := hblind _ _ hmachine
    exact ⟨hr, Host.map_eq.mpr ⟨hafter, hrest⟩⟩
  keeps h := hkeeps h.machine

/-- An action that lets time pass or puts something on record. -/
theorem change {f : Host μ → Host μ} (hmachine : ∀ h, (f h).machine = h.machine)
    (hmap : ∀ {h h' : Host μ}, h.map out = h'.map out → (f h).map out = (f h').map out) :
    Confined out own (Act.change f) :=
  ⟨fun _ _ hh => ⟨rfl, hmap hh⟩, fun h => congrArg own (hmachine h)⟩

end Confined

/-- **What the barred mutator is asked** is confined where the mutator is apart. -/
theorem Mutator.Apart.asks {m : Mutator μ} (hm : m.Apart out own) {a : Call μ α}
    (ha : m.barred.Asks α a) : Confined out own a := by
  cases ha with
  | readValue hive path name =>
    dsimp only [barred]
    split
    · exact .throw _
    · next hh => exact hm.readValue hh path name
  | keyExists hive path =>
    dsimp only [barred]
    split
    · exact .throw _
    · next hh => exact hm.keyExists hh path
  | queryService service => exact hm.queryService service
  | pathExists path => exact hm.pathExists path
  | readText path => exact hm.readText path
  | write w =>
    dsimp only [barred]
    split
    · next hw => exact hm.write hw
    · exact .throw _

end

/-! ## Mutators that log -/

/-- Whether a request is not about the hive of the current user. -/
def Request.elsewhere : Request → Bool
  | readValue hive _ _ | keyExists hive _ => hive ≠ .currentUser
  | write w => w.elsewhere
  | queryService _ | pathExists _ | readText _ | runDiagnostic _ => true

/-- A machine with what was asked of it, the last request first. -/
structure Logged (μ : Type) where
  machine : μ
  requests : List Request := []

/-- What a view shows of a machine, with what was asked of the machine. -/
def Logged.map (f : μ → γ) (l : Logged μ) : Logged γ := { l with machine := f l.machine }

/-- A host without the log of its machine. -/
def Host.unlogged : Part (Host (Logged μ)) (Host μ) :=
  ⟨Host.map Logged.machine, fun h h' => h.map fun m => ⟨m, h'.machine.requests⟩⟩

/-- Puts a request on the log, and then makes it. -/
def logging (r : Request) (a : Call μ α) : Call (Logged μ) α := do
  Host.onMachine (Act.change fun l => { l with requests := r :: l.requests })
  Host.unlogged.lift a

/-- The mutator with a log of what is asked of it. -/
def Mutator.logged (m : Mutator μ) : Mutator (Logged μ) :=
  { readValue := fun hive path name =>
      logging (.readValue hive path name) (m.readValue hive path name)
    keyExists := fun hive path => logging (.keyExists hive path) (m.keyExists hive path)
    queryService := fun service => logging (.queryService service) (m.queryService service)
    pathExists := fun path => logging (.pathExists path) (m.pathExists path)
    readText := fun path => logging (.readText path) (m.readText path)
    write := fun w => logging (.write w) (m.write w) }

theorem Logged.map_eq {f : μ → γ} {l l' : Logged μ} :
    l.map f = l'.map f ↔ f l.machine = f l'.machine ∧ l.requests = l'.requests := by
  cases l
  cases l'
  simp [map]

section

variable {out : μ → γ} {own : μ → δ}

theorem Confined.logging {a : Call μ α} (ha : Confined out own a) (r : Request) :
    Confined (Logged.map out) (fun l => own l.machine) (TweakEngine.logging r a) := by
  refine .bind (.onMachine (fun l l' hl => ?_) fun _ => rfl) fun _ =>
    ⟨fun h h' hh => ?_, fun h => ?_⟩
  · obtain ⟨hmachine, hrequests⟩ := Logged.map_eq.mp hl
    exact ⟨rfl, Logged.map_eq.mpr ⟨hmachine, congrArg (r :: ·) hrequests⟩⟩
  · obtain ⟨hlog, hrest⟩ := Host.map_eq.mp hh
    obtain ⟨hmachine, hrequests⟩ := Logged.map_eq.mp hlog
    obtain ⟨hr, hafter⟩ := ha.blind (h.map Logged.machine) (h'.map Logged.machine)
      (Host.map_eq.mpr ⟨hmachine, hrest⟩)
    obtain ⟨hmachine, hrest⟩ := Host.map_eq.mp hafter
    exact ⟨hr, Host.map_eq.mpr ⟨Logged.map_eq.mpr ⟨hmachine, hrequests⟩, hrest⟩⟩
  · exact ha.keeps (h.map Logged.machine)

theorem Mutator.Apart.logged {m : Mutator μ} (hm : m.Apart out own) :
    m.logged.Apart (Logged.map out) fun l => own l.machine where
  readValue hh path name := (hm.readValue hh path name).logging _
  keyExists hh path := (hm.keyExists hh path).logging _
  queryService service := (hm.queryService service).logging _
  pathExists path := (hm.pathExists path).logging _
  readText path := (hm.readText path).logging _
  write hw := (hm.write hw).logging _

end

/-- More was asked, and nothing of it about the hive of the current user. -/
def Logged.Onward (l l' : Logged μ) : Prop :=
  ∃ new, l'.requests = new ++ l.requests ∧ ∀ r ∈ new, r.elsewhere = true

theorem Logged.Onward.refl (l : Logged μ) : l.Onward l := ⟨[], rfl, nofun⟩

theorem Logged.Onward.trans {l l₁ l' : Logged μ} (h : l.Onward l₁) (h' : l₁.Onward l') :
    l.Onward l' := by
  obtain ⟨new, hnew, helse⟩ := h
  obtain ⟨more, hmore, helse'⟩ := h'
  refine ⟨more ++ new, by rw [hmore, hnew, List.append_assoc], fun r hr => ?_⟩
  rcases List.mem_append.mp hr with hr | hr
  · exact helse' r hr
  · exact helse r hr

theorem logging_onward {r : Request} (hr : r.elsewhere = true) (a : Call μ α) :
    (logging r a).Along fun h h' => h.machine.Onward h'.machine :=
  fun _ => ⟨[r], rfl, fun _ hx => List.mem_singleton.mp hx ▸ hr⟩

/-- The log of a barred mutator grows by requests about other hives. -/
theorem Mutator.asks_onward {m : Mutator μ} {a : Call (Logged μ) α}
    (ha : m.logged.barred.Asks α a) : a.Along fun h h' => h.machine.Onward h'.machine := by
  cases ha with
  | readValue hive path name =>
    dsimp only [barred]
    split
    · exact fun _ => .refl _
    · next hh => exact logging_onward (r := .readValue hive path name) (decide_eq_true hh) _
  | keyExists hive path =>
    dsimp only [barred]
    split
    · exact fun _ => .refl _
    · next hh => exact logging_onward (r := .keyExists hive path) (decide_eq_true hh) _
  | queryService | pathExists | readText => exact logging_onward rfl _
  | write w =>
    dsimp only [barred]
    split
    · next hw => exact logging_onward (r := .write w) hw _
    · exact fun _ => .refl _

/-! ## Tables in part -/

/-- Putting under a key that a test keeps can be done before or after keeping. -/
theorem Assoc.put_filter {κ : Type} [DecidableEq κ] {p : κ → Bool} {k : κ} (hk : p k = true)
    (a : α) : ∀ t : Assoc κ α,
      put k a (t.filter fun e => p e.1) = (put k a t).filter fun e => p e.1
  | [] => by simp [put, hk]
  | (k', a') :: t => by
    have ih := put_filter hk a t
    by_cases h : k' = k
    · subst h
      simp [put, hk]
    · cases hp : p k' <;> simp [put, h, hp, ih]

/-- Putting under a key that a test drops does not change what it keeps. -/
theorem Assoc.filter_put {κ : Type} [DecidableEq κ] {p : κ → Bool} {k : κ} (hk : p k = false)
    (a : α) : ∀ t : Assoc κ α, ((put k a t).filter fun e => p e.1) = t.filter fun e => p e.1
  | [] => by simp [put, hk]
  | (k', a') :: t => by
    have ih := filter_put hk a t
    by_cases h : k' = k
    · subst h
      simp [put, hk]
    · simp [put, h, List.filter_cons, ih]

/-! ## The machine in memory -/

namespace Machine

variable {m m' : Machine} {w : Write}

/-- A machine without the hive of the current user and without what it refuses about it. -/
def outside (m : Machine) : Machine :=
  { m with
    keys := m.keys.filter fun e => decide (e.1.1 ≠ .currentUser)
    denied := m.denied.filter fun k => decide (k.1 ≠ .currentUser)
    faults := fun r => if r.elsewhere then m.faults r else none }

/-- The hive of the current user: its keys, and those that are denied. -/
def ownHive (m : Machine) :
    Assoc (Hive × String) (Assoc String (Option RegistryValue)) × List (Hive × String) :=
  (m.keys.filter fun e => decide (e.1.1 = .currentUser),
    m.denied.filter fun k => decide (k.1 = .currentUser))

section

variable {hive : Hive} (hh : hive ≠ .currentUser)
include hh

theorem get?_outside (m : Machine) (path : String) :
    Assoc.get? (hive, path) m.outside.keys = Assoc.get? (hive, path) m.keys := by
  refine (Assoc.get?_filter (fun k : Hive × String => decide (k.1 ≠ .currentUser)) _ _).trans ?_
  exact if_pos (decide_eq_true hh)

theorem has_outside (m : Machine) (path : String) :
    Assoc.has (hive, path) m.outside.keys = Assoc.has (hive, path) m.keys :=
  congrArg Option.isSome (get?_outside hh m path)

theorem put_outside (m : Machine) (path : String) (values : Assoc String (Option RegistryValue)) :
    { m.outside with keys := Assoc.put (hive, path) values m.outside.keys } =
      { m with keys := Assoc.put (hive, path) values m.keys }.outside := by
  have hput := Assoc.put_filter (p := fun k : Hive × String => decide (k.1 ≠ .currentUser))
    (k := (hive, path)) (decide_eq_true hh) values m.keys
  unfold outside
  rw [hput]

theorem ownHive_put (m : Machine) (path : String) (values : Assoc String (Option RegistryValue)) :
    { m with keys := Assoc.put (hive, path) values m.keys }.ownHive = m.ownHive := by
  have hput := Assoc.filter_put (p := fun k : Hive × String => decide (k.1 = .currentUser))
    (k := (hive, path)) (decide_eq_false hh) values m.keys
  unfold ownHive
  rw [hput]

theorem reading_outside (m : Machine) (path name : String) :
    m.outside.reading hive path name = m.reading hive path name := by
  have hdenied : (hive, path) ∈ m.outside.denied ↔ (hive, path) ∈ m.denied := by
    refine List.mem_filter.trans (and_iff_left ?_)
    exact decide_eq_true hh
  unfold reading
  rw [get?_outside hh]
  simp only [hdenied]

end

/-- What is done neither looks at the registry and what is refused nor changes it. -/
def Registryless (f : Machine → Except Failure Machine) : Prop :=
  ∀ (m : Machine) keys denied faults, f { m with keys, denied, faults } =
    (fun m' => { m' with keys, denied, faults }) <$> f m

namespace Registryless

variable {f : Machine → Except Failure Machine}

theorem outside (hf : Registryless f) (m : Machine) : f m.outside = Machine.outside <$> f m := by
  have hsame := hf m m.keys m.denied m.faults
  refine (hf m m.outside.keys m.outside.denied m.outside.faults).trans ?_
  revert hsame
  cases f m with
  | error e => exact fun _ => rfl
  | ok m' =>
    intro hsame
    rw [Except.ok.inj hsame]
    rfl

theorem ownHive (hf : Registryless f) (h : f m = .ok m') : m'.ownHive = m.ownHive := by
  have hsame := hf m m.keys m.denied m.faults
  rw [h] at hsame
  rw [Except.ok.inj hsame]
  rfl

theorem withService (service : Datum) (g : Service → Service) :
    Registryless fun m => m.withService service g := by
  intro m keys denied faults
  unfold Machine.withService
  cases folded service with
  | error e => rfl
  | ok name =>
    simp only [ok_bind]
    cases Assoc.get? name m.services <;> rfl

theorem removePath (path : Datum) : Registryless fun m => m.removePath path := by
  intro m keys denied faults
  unfold Machine.removePath
  cases path with
  | text p =>
    dsimp only
    cases (Assoc.has p m.files || m.directories.contains p) <;> rfl
  | _ => rfl

theorem duplicate (source target : Datum) : Registryless fun m => m.duplicate source target := by
  intro m keys denied faults
  unfold Machine.duplicate
  cases textOf target with
  | error e => rfl
  | ok t =>
    simp only [ok_bind]
    cases source with
    | text p =>
      dsimp only
      cases Assoc.get? p m.files with
      | some content => rfl
      | none => cases m.directories.contains p <;> rfl
    | _ => rfl

theorem relocate (source target : Datum) : Registryless fun m => m.relocate source target := by
  intro m keys denied faults
  unfold Machine.relocate
  cases textOf target with
  | error e => rfl
  | ok t =>
    simp only [ok_bind]
    cases source with
    | text p =>
      dsimp only
      cases Assoc.get? p m.files with
      | some content => rfl
      | none => cases m.directories.contains p <;> rfl
    | _ => rfl

end Registryless

/-- What is below a key of another hive is not in the hive of the current user. -/
theorem not_atOrBelow {hive : Hive} (hh : hive ≠ .currentUser) (path : String) {k : Hive × String}
    (hk : k.1 = .currentUser) : atOrBelow hive path k = false := by
  have hne : (k.1 == hive) = false := beq_eq_false_iff_ne.mpr fun e => hh (e.symm.trans hk)
  rw [atOrBelow, hne, Bool.false_and]

/-- Keys can be removed before the hive of the current user is left out, or after. -/
theorem deleteKey_outside (m : Machine) (hive : Hive) (path : String) :
    (m.outside.keys.filter fun e => !atOrBelow hive path e.1) =
      (m.keys.filter fun e => !atOrBelow hive path e.1).filter
        fun e => decide (e.1.1 ≠ .currentUser) := by
  unfold outside
  rw [List.filter_filter, List.filter_filter]
  exact List.filter_congr fun _ _ => Bool.and_comm _ _

/-- Whether a key in another hive is removed does not depend on the hive of the current user. -/
theorem length_deleteKey_outside {hive : Hive} (hh : hive ≠ .currentUser) (m : Machine)
    (path : String) :
    ((m.outside.keys.filter fun e => !atOrBelow hive path e.1).length != m.outside.keys.length) =
      ((m.keys.filter fun e => !atOrBelow hive path e.1).length != m.keys.length) := by
  rw [Bool.eq_iff_iff, bne_iff_ne, bne_iff_ne, Ne, Ne, List.length_filter_eq_length_iff,
    List.length_filter_eq_length_iff, not_iff_not]
  refine ⟨fun h x hx => ?_, fun h x hx => h x (List.mem_filter.mp hx).1⟩
  by_cases hk : x.1.1 = .currentUser
  · rw [not_atOrBelow hh path hk]
    rfl
  · exact h x (List.mem_filter.mpr ⟨hx, decide_eq_true hk⟩)

/-- **A write about something else** does the same with and without the hive of the current
user. -/
theorem apply_outside (m : Machine) {w : Write} (hw : w.elsewhere = true) :
    m.outside.apply w = (fun x => (x.1, x.2.outside)) <$> m.apply w := by
  have hplain : ∀ {f}, Registryless f → (f m.outside >>= fun m' => pure ((), m')) =
      ((fun x => (x.1, x.2.outside)) <$> (f m >>= fun m' => pure ((), m')) :
        Except Failure (Unit × Machine)) := by
    intro f hf
    rw [hf.outside]
    cases f m <;> rfl
  cases w with
  | setValue hive path name value =>
    have hh : hive ≠ .currentUser := of_decide_eq_true hw
    dsimp only [apply]
    rcases folded path with f | p
    · rfl
    rcases foldedName name with f | n
    · rfl
    simp only [ok_bind]
    rw [get?_outside hh, put_outside hh]
    rfl
  | deleteValue hive path name =>
    have hh : hive ≠ .currentUser := of_decide_eq_true hw
    dsimp only [apply]
    rcases folded path with f | p
    · rfl
    rcases foldedName name with f | n
    · rfl
    simp only [ok_bind]
    rw [get?_outside hh]
    cases Assoc.get? (hive, p) m.keys with
    | none => rfl
    | some values =>
      dsimp only
      rw [put_outside hh]
      rfl
  | createKey hive path =>
    have hh : hive ≠ .currentUser := of_decide_eq_true hw
    dsimp only [apply]
    rcases folded path with f | p
    · rfl
    simp only [ok_bind]
    rw [has_outside hh, put_outside hh]
    cases Assoc.has (hive, p) m.keys <;> rfl
  | deleteKey hive path =>
    have hh : hive ≠ .currentUser := of_decide_eq_true hw
    dsimp only [apply]
    rcases folded path with f | p
    · rfl
    simp only [ok_bind]
    rw [length_deleteKey_outside hh, deleteKey_outside]
    rfl
  | stopService | startService | setStartup => exact hplain (.withService _ _)
  | runScript => rfl
  | writeFile path =>
    dsimp only [apply]
    cases textOf path <;> rfl
  | createDirectory path =>
    dsimp only [apply]
    cases textOf path <;> rfl
  | deletePath path => exact hplain (.removePath path)
  | movePath source target => exact hplain (.relocate source target)
  | copyPath source target => exact hplain (.duplicate source target)

/-- A write about something else leaves the hive of the current user as it is. -/
theorem apply_ownHive {w : Write} (hw : w.elsewhere = true) {reply : w.Reply}
    (h : m.apply w = .ok (reply, m')) : m'.ownHive = m.ownHive := by
  cases w with
  | setValue hive path name value =>
    obtain ⟨p, -, h⟩ := ok_of_bind h
    obtain ⟨n, -, h⟩ := ok_of_bind h
    cases h
    exact ownHive_put (of_decide_eq_true hw) _ _ _
  | deleteValue hive path name =>
    obtain ⟨p, -, h⟩ := ok_of_bind h
    obtain ⟨n, -, h⟩ := ok_of_bind h
    split at h <;> cases h
    · rfl
    · exact ownHive_put (of_decide_eq_true hw) _ _ _
  | createKey hive path =>
    obtain ⟨p, -, h⟩ := ok_of_bind h
    dsimp only at h
    split at h <;> cases h
    · rfl
    · exact ownHive_put (of_decide_eq_true hw) _ _ _
  | deleteKey hive path =>
    obtain ⟨p, -, h⟩ := ok_of_bind h
    cases h
    unfold ownHive
    dsimp only
    rw [List.filter_filter]
    refine congrArg (·, _) (List.filter_congr fun x _ => ?_)
    by_cases hk : x.1.1 = .currentUser
    · rw [not_atOrBelow (of_decide_eq_true hw) p hk, Bool.not_false, Bool.and_true]
    · rw [decide_eq_false hk, Bool.false_and]
  | stopService | startService | setStartup =>
    obtain ⟨m₁, hm, h⟩ := ok_of_bind h
    cases h
    exact (Registryless.withService _ _).ownHive hm
  | runScript => cases h; rfl
  | writeFile | createDirectory =>
    obtain ⟨p, -, h⟩ := ok_of_bind h
    cases h
    rfl
  | deletePath path =>
    obtain ⟨m₁, hm, h⟩ := ok_of_bind h
    cases h
    exact (Registryless.removePath path).ownHive hm
  | movePath source target =>
    obtain ⟨m₁, hm, h⟩ := ok_of_bind h
    cases h
    exact (Registryless.relocate source target).ownHive hm
  | copyPath source target =>
    obtain ⟨m₁, hm, h⟩ := ok_of_bind h
    cases h
    exact (Registryless.duplicate source target).ownHive hm

/-- A request about something else is answered the same with and without the hive of the current
user. -/
theorem ask_confined {r : Request} (hr : r.elsewhere = true) {f : Machine → Except Failure α}
    (hf : ∀ m : Machine, f m.outside = f m) : Confined outside ownHive (ask r f) where
  blind := by
    intro h h' hh
    have hm := (Host.map_eq.mp hh).1
    have hanswer : ∀ m : Machine, m.outside.answer r (f m.outside) = m.answer r (f m) := fun m => by
      have hfaults : m.outside.faults r = m.faults r := if_pos hr
      rw [answer, answer, hfaults, hf]
    rw [on_ask, on_ask]
    exact ⟨(hanswer h.machine).symm.trans
      ((congrArg (fun m => m.answer r (f m)) hm).trans (hanswer h'.machine)), hh⟩
  keeps h := by rw [on_ask]

/-- A write about something else is carried out, or refused, the same with and without the hive of
the current user, and leaves the hive as it is. -/
theorem perform_confined {w : Write} (hw : w.elsewhere = true) :
    Confined outside ownHive (perform w) := by
  have hview : ∀ {β : Type} {f : Machine → β}, (∀ m, f m.outside = f m) →
      Confined outside ownHive (Host.onMachine (Act.view f)) := fun hf => by
    refine .onMachine (fun m m' hm => ⟨?_, hm⟩) fun m => rfl
    rw [Act.on_view, Act.on_view, ← hf m, ← hf m', hm]
  have hwait : ∀ micros, Confined outside ownHive (Host.wait micros : Call Machine Unit) :=
    fun micros => .change (fun _ => rfl) fun hh => by
      obtain ⟨hmachine, hdisk, hclock, hrest⟩ := Host.map_eq.mp hh
      refine Host.map_eq.mpr ⟨hmachine, hdisk, ?_, hrest⟩
      dsimp only
      rw [hclock]
  have hrecord : Confined outside ownHive (Host.record (.wrote w) : Call Machine Unit) :=
    .change (fun _ => rfl) fun hh => by
      obtain ⟨hmachine, hdisk, hclock, hanswers, htrail⟩ := Host.map_eq.mp hh
      exact Host.map_eq.mpr ⟨hmachine, hdisk, hclock, hanswers, congrArg (_ :: ·) htrail⟩
  refine .bind (hview (f := fun m => m.faults (.write w)) fun m => if_pos hw) fun refused? => ?_
  cases refused? with
  | some f => exact .throw f
  | none =>
    refine .bind hrecord fun _ => .bind (hview fun m => by cases w <;> rfl) fun micros =>
      .bind (.onMachine (fun m m' hm => ?_) fun m => ?_) fun reply =>
      .bind (hwait micros) fun _ => .pure reply
    · have hsame := (apply_outside m hw).symm.trans ((congrArg (·.apply w) hm).trans
        (apply_outside m' hw))
      rw [Act.on_of, Act.on_of]
      revert hsame
      rcases m.apply w with f | x <;> rcases m'.apply w with f' | x' <;> intro hsame
      · cases hsame
        exact ⟨rfl, hm⟩
      · cases hsame
      · cases hsame
      · obtain ⟨hreply, hout⟩ := Prod.mk.inj (Except.ok.inj hsame)
        exact ⟨congrArg Except.ok hreply, hout⟩
    · rw [Act.on_of]
      rcases hm : m.apply w with f | ⟨reply, m'⟩
      · rfl
      · exact apply_ownHive hw hm

/-- **The machine in memory is apart**: nothing but requests about the hive of the current user
looks at that hive or changes it. -/
theorem mutator_apart : mutator.Apart outside ownHive where
  readValue {hive} hh path name :=
    ask_confined (r := .readValue hive path name) (decide_eq_true hh) fun m => by
    rcases folded path with f | p
    · rfl
    rcases foldedName name with f | n
    · rfl
    exact congrArg Except.ok (reading_outside hh m p n)
  keyExists {hive} hh path :=
    ask_confined (r := .keyExists hive path) (decide_eq_true hh) fun m => by
    rcases folded path with f | p
    · rfl
    exact congrArg Except.ok (has_outside hh m p)
  queryService _ := ask_confined rfl fun _ => rfl
  pathExists _ := ask_confined rfl fun _ => rfl
  readText _ := ask_confined rfl fun _ => rfl
  write hw := perform_confined hw

end Machine

end TweakEngine
