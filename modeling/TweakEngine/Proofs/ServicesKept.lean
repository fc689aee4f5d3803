/-
# Services stay recoverable

`ServicesKept t m₀ m noted` says that the services of the machine `m` can be brought
back to the start types and states of `m₀` from the notes of the service operations of
`t`, when every service of `m₀` is running or stopped and has a known start type.
Operations keep it when they run after the operations before them
(`ServicesKept.note`, `ServicesKept.issue`), restoring keeps it for the notes that are
left (`ServicesKept.restore`) and for the notes as they were (`ServicesKept.rewrite`),
and without notes every service is as it was (`ServicesKept.restored`).
-/

import TweakEngine.Proofs.MachineSteps
import TweakEngine.Proofs.Originals

namespace TweakEngine

open Engine (serviceWrite broughtTo restoredService)

/-- Start type and state of a service. -/
abbrev Condition := StartupType × RunState

/-- Start type and state of a service, if it exists. -/
def Machine.condition (m : Machine) (n : String) : Option Condition :=
  (Assoc.get? n m.services).map fun x => (x.startup, x.state)

/-- A service that does one thing or the other, and not something between. -/
def RunState.Settled (s : RunState) : Prop := s = .running ∨ s = .stopped

/-- Every service is running or stopped and has a known start type. -/
def Machine.Settled (m : Machine) : Prop :=
  ∀ n x, Assoc.get? n m.services = some x → x.state.Settled ∧ x.startup ≠ .unknown

/-- A note brings a service back to a condition that it can bring about. -/
def ServiceCapture.Brings (c : ServiceCapture) (v : Option Condition) : Prop :=
  c.startup ≠ .unknown ∧ ∃ st : RunState, st.Settled ∧ c.state = some st ∧ v = some (c.startup, st)

/-- The service that the service operation at a position is about. -/
def Tweak.serviceAt (t : Tweak) (i : Nat) : Option String :=
  t.operations.services[i]?.map fun op => Machine.serviceOf op.service

/-- The services of `m` can be brought back to those of `m₀` from the notes. -/
structure ServicesKept (t : Tweak) (m₀ m : Machine) (noted : Nat → Option ServiceCapture) :
    Prop where
  conditions : Originals t.serviceAt ServiceCapture.Brings m₀.condition m.condition noted
  gaps : NoGaps t.serviceAt noted
  /-- The same services exist, under the same names. -/
  names : ∀ n, (Assoc.get? n m.services).map Machine.Service.name =
    (Assoc.get? n m₀.services).map Machine.Service.name
  settled : ∀ n x, Assoc.get? n m.services = some x → x.state.Settled
  /-- Only operations on services that exist are noted. -/
  found : ∀ i, noted i ≠ none → ∃ n, t.serviceAt i = some n ∧ (Assoc.get? n m₀.services).isSome

variable {t : Tweak} {m₀ m m' : Machine} {noted noted' : Nat → Option ServiceCapture} {i : Nat}
  {op : ServiceOperation} {c : ServiceCapture} {n : String} {x : Machine.Service}

theorem broughtTo_settled {before : Option RunState} {current : RunState} (h : current.Settled) :
    (broughtTo before current).Settled := by
  unfold broughtTo
  split
  · exact .inl rfl
  · split
    · exact .inr rfl
    · exact h

/-- A service that is running or stopped is brought to either. -/
theorem broughtTo_eq {before current : RunState} (hb : before.Settled) (hc : current.Settled) :
    broughtTo (some before) current = before := by
  rcases hb with rfl | rfl <;> rcases hc with rfl | rfl <;> rfl

theorem serviceAfter_settled (w : Write) (h : x.state.Settled) :
    (Machine.serviceAfter w x).state.Settled := by
  cases w with
  | stopService => exact .inr rfl
  | startService => exact .inl rfl
  | _ => exact h

theorem serviceAfter_name (w : Write) : (Machine.serviceAfter w x).name = x.name := by
  cases w <;> rfl

/-- The writes of service operations are about their service. -/
theorem serviceWrite_eq {w : Write} (hw : serviceWrite op = .ok w) :
    w = .stopService op.service ∨ w = .startService op.service ∨
      ∃ t, w = .setStartup op.service t := by
  unfold serviceWrite at hw
  split at hw
  · cases hw; exact .inl rfl
  · cases hw; exact .inr (.inl rfl)
  · cases hw; exact .inr (.inr ⟨_, rfl⟩)
  · cases hw; exact .inr (.inr ⟨_, rfl⟩)
  · split at hw <;> cases hw
    exact .inr (.inr ⟨_, rfl⟩)

theorem Machine.condition_of_services (h : m'.services = m.services) :
    m'.condition = m.condition :=
  funext fun n => by rw [Machine.condition, Machine.condition, h]

/-- Other services than the replaced one are as they were. -/
theorem Machine.ServiceReplaced.condition_ne {n' : String} (hm' : Machine.ServiceReplaced m m' n x)
    (hn' : n ≠ n') : m'.condition n' = m.condition n' := by
  rw [Machine.condition, Machine.condition, hm'.services, if_neg hn']

/-- A service restored from a note is in the condition that the note brings back. -/
theorem ServiceCapture.Brings.condition {v : Option Condition} (h : c.Brings v)
    (hx : x.state.Settled) (hm' : Machine.ServiceReplaced m m' n (restoredService c x)) :
    m'.condition n = v := by
  obtain ⟨hknown, st, hst, hstate, rfl⟩ := h
  rw [Machine.condition, hm'.get, Option.map_some, restoredService, if_pos hknown, hstate,
    broughtTo_eq hst hx]

namespace ServicesKept

theorem refl (hs : m₀.Settled) (h : ∀ i, noted i = none) : ServicesKept t m₀ m₀ noted where
  conditions := .refl h
  gaps := fun _ _ i _ _ _ _ => h i
  names := fun _ => rfl
  settled := fun n x hx => (hs n x hx).1
  found := fun i hi => absurd (h i) hi

/-- Only operations of the tweak are noted. -/
theorem lt_of_noted (h : ServicesKept t m₀ m noted) (hn : noted i ≠ none) :
    i < t.operations.services.length := by
  obtain ⟨n, hat, -⟩ := h.found i hn
  by_contra hge
  rw [Tweak.serviceAt, List.getElem?_eq_none (Nat.not_lt.mp hge)] at hat
  cases hat

theorem none_beyond (h : ServicesKept t m₀ m noted) :
    ∀ j ≥ t.operations.services.length, noted j = none := fun _ hj =>
  not_not.mp fun hn => absurd (h.lt_of_noted hn) (Nat.not_lt.mpr hj)

/-- Only services count of a machine. -/
theorem of_services (h : ServicesKept t m₀ m noted) (hs : m'.services = m.services) :
    ServicesKept t m₀ m' noted where
  conditions := Machine.condition_of_services hs ▸ h.conditions
  gaps := h.gaps
  names := fun n => by rw [hs]; exact h.names n
  settled := fun n x hx => h.settled n x (hs ▸ hx)
  found := h.found

/-- The same services exist as at the start. -/
theorem isSome_iff (h : ServicesKept t m₀ m noted) (n : String) :
    (Assoc.get? n m.services).isSome = (Assoc.get? n m₀.services).isSome := by
  have := congrArg Option.isSome (h.names n)
  rwa [Option.isSome_map, Option.isSome_map] at this

theorem isSome_of_get? (h : ServicesKept t m₀ m noted) (hx : Assoc.get? n m.services = some x) :
    (Assoc.get? n m₀.services).isSome = true := by
  rw [← h.isSome_iff, hx]
  rfl

/-- A service that is noted exists. -/
theorem exists_noted (h : ServicesKept t m₀ m noted) (hi : t.serviceAt i = some n)
    (hn : noted i ≠ none) : ∃ x, Assoc.get? n m.services = some x := by
  obtain ⟨n', hn', hsome⟩ := h.found i hn
  obtain rfl := Option.some.inj (hi.symm.trans hn')
  rw [← h.isSome_iff] at hsome
  exact Option.isSome_iff_exists.mp hsome

/-- A new note of a service that an operation is about to change. -/
theorem note (h : ServicesKept t m₀ m noted) (hs : m₀.Settled) (hi : t.serviceAt i = some n)
    (hx : Assoc.get? n m.services = some x) (hfree : noted i = none)
    (lower : ∀ j < i, t.serviceAt j = some n → noted j ≠ none)
    (new : noted' i = some ⟨x.startup, some x.state⟩) (same : ∀ j, j ≠ i → noted' j = noted j) :
    ServicesKept t m₀ m noted' where
  conditions := h.conditions.note h.gaps hi hfree lower (fun horig => by
    have hcond : m.condition n = some (x.startup, x.state) := by
      rw [Machine.condition, hx, Option.map_some]
    have hknown : x.startup ≠ .unknown := by
      rw [hcond, Machine.condition, eq_comm, Option.map_eq_some_iff] at horig
      obtain ⟨y, hy, hyx⟩ := horig
      rw [← (Prod.mk.inj hyx).1]
      exact (hs n y hy).2
    exact ⟨hknown, x.state, h.settled n x hx, rfl, hcond⟩) new same
  gaps := h.gaps.note (fun j y hj hy hiy => by
    obtain rfl : n = y := Option.some.inj (hi.symm.trans hiy)
    exact lower j hj hy) new same
  names := h.names
  settled := h.settled
  found := fun j hn => by
    by_cases hji : j = i
    · subst hji
      exact ⟨n, hi, h.isSome_of_get? hx⟩
    · exact h.found j (by rw [← same j hji]; exact hn)

/-- Keeping the condition of a service that an operation is about to change. -/
theorem keep (h : ServicesKept t m₀ m noted) (hs : m₀.Settled) (hi : t.serviceAt i = some n)
    (hx : Assoc.get? n m.services = some x)
    (lower : ∀ j < i, t.serviceAt j = some n → noted j ≠ none)
    (now : ∀ j, noted' j = if j = i then some ((noted i).getD ⟨x.startup, some x.state⟩)
      else noted j) : ServicesKept t m₀ m noted' := by
  rcases keep_cases now with rfl | ⟨hfree, new, same⟩
  · exact h
  · exact h.note hs hi hx hfree lower new same

/-- A change of the service that a noted operation is about. -/
theorem change (h : ServicesKept t m₀ m noted) {y : Machine.Service} (hi : t.serviceAt i = some n)
    (hn : noted i ≠ none) (hx : Assoc.get? n m.services = some x)
    (hm' : Machine.ServiceReplaced m m' n y) (hname : y.name = x.name) (hy : y.state.Settled) :
    ServicesKept t m₀ m' noted where
  conditions := h.conditions.write hi hn fun _ hn' => hm'.condition_ne (Ne.symm hn')
  gaps := h.gaps
  names := fun n' => by
    rw [hm'.services, ← h.names]
    split
    · next e => rw [← e, hx, Option.map_some, Option.map_some, hname]
    · rfl
  settled := fun n' z hz => by
    rw [hm'.services] at hz
    split at hz
    · cases hz; exact hy
    · exact h.settled n' z hz
  found := h.found

/-- The write of a noted operation keeps services recoverable. -/
theorem issue (h : ServicesKept t m₀ m noted) (hs : op.service.IsText)
    (hi : t.operations.services[i]? = some op) (hn : noted i ≠ none)
    (hx : Assoc.get? (Machine.serviceOf op.service) m.services = some x) {w : Write} {a : w.Reply}
    (hw : serviceWrite op = .ok w) (ha : m.apply w = .ok (a, m')) :
    ServicesKept t m₀ m' noted := by
  obtain ⟨b, m₁, h₁, hm₁⟩ := Machine.apply_service_text m hs (serviceWrite_eq hw) hx
  cases ha.symm.trans h₁
  have hat : t.serviceAt i = some (Machine.serviceOf op.service) := by
    rw [Tweak.serviceAt, hi, Option.map_some]
  exact h.change hat hn hx hm₁ (serviceAfter_name w)
    (serviceAfter_settled w (h.settled _ x hx))

/-- Restoring a service keeps services recoverable from the notes as they were. -/
theorem rewrite (h : ServicesKept t m₀ m noted) (hi : t.serviceAt i = some n)
    (hn : noted i ≠ none) (hx : Assoc.get? n m.services = some x)
    (hm' : Machine.ServiceReplaced m m' n (restoredService c x)) : ServicesKept t m₀ m' noted :=
  h.change hi hn hx hm' rfl (broughtTo_settled (h.settled n x hx))

/-- **Restoring the highest noted operation on a service** keeps services recoverable from the
notes that are left. -/
theorem restore (h : ServicesKept t m₀ m noted) (hi : t.serviceAt i = some n)
    (hn : noted i = some c) (hx : Assoc.get? n m.services = some x)
    (hm' : Machine.ServiceReplaced m m' n (restoredService c x))
    (higher : ∀ j, i < j → t.serviceAt j = some n → noted j = none) (gone : noted' i = none)
    (same : ∀ j, j ≠ i → noted' j = noted j) : ServicesKept t m₀ m' noted' := by
  have h' := h.rewrite hi (by rw [hn]; exact nofun) hx hm'
  have hgaps : ∀ j n', i < j → t.serviceAt j = some n' → t.serviceAt i = some n' → noted j = none :=
    fun j n' hj hjn hin => higher j hj (Option.some.inj (hi.symm.trans hin) ▸ hjn)
  refine ⟨?_, h'.gaps.release hgaps gone same, h'.names, h'.settled, fun j hj => ?_⟩
  · exact h'.conditions.release hi hn (fun j hj hjn => higher j hj hjn)
      (fun v hv => hv.condition (h.settled n x hx) hm') gone same
  · by_cases hji : j = i
    · rw [hji, gone] at hj
      exact absurd rfl hj
    · exact h'.found j (by rw [← same j hji]; exact hj)

/-- Notes stay as good as they were when everything is back. -/
theorem back (h : ServicesKept t m₀ m noted) (h' : ServicesKept t m₀ m' noted')
    (hn : ∀ i, noted' i = none) : ServicesKept t m₀ m' noted where
  conditions := h.conditions.heal fun x => .inr (congrFun (h'.conditions.restored hn) x)
  gaps := h.gaps
  names := h'.names
  settled := h'.settled
  found := h.found

/-- A service in the condition that it had is as it was. -/
theorem same_of_condition (h : ServicesKept t m₀ m noted) {n : String}
    (hc : m.condition n = m₀.condition n) :
    Assoc.get? n m.services = Assoc.get? n m₀.services := by
  have hname := h.names n
  unfold Machine.condition at hc
  revert hc hname
  rcases Assoc.get? n m.services with _ | ⟨name, state, startup⟩ <;>
    rcases Assoc.get? n m₀.services with _ | ⟨name', state', startup'⟩ <;> simp
  rintro rfl rfl rfl
  exact ⟨rfl, rfl, rfl⟩

/-- Without notes every service is as it was. -/
theorem restored (h : ServicesKept t m₀ m noted) (hn : ∀ i, noted i = none) (n : String) :
    Assoc.get? n m.services = Assoc.get? n m₀.services :=
  h.same_of_condition (congrFun (h.conditions.restored hn) n)

end ServicesKept
end TweakEngine
