/-
# Calls that do not listen

What is said is written on the trail and does not count otherwise.  `Session.hushed` strikes it
out.  Where a mutator, a detector and the token do not look at messages (`Engine.Deaf`), calls do
not either: what they give, and what they leave behind up to messages, is settled by the session
without its messages (`Engine.Deaf.call`).
-/

import TweakEngine.Proofs.StoppedCalls

namespace TweakEngine

open Session

variable {μ : Type}

/-- Whether an event is a message. -/
def Event.isSaid : Event → Bool
  | said _ => true
  | _ => false

/-- The host without its messages. -/
def Host.hushed (h : Host μ) : Host μ := { h with trail := h.trail.filter fun x => !x.isSaid }

/-- The session without its messages. -/
def Session.hushed (s : Session μ) : Session μ := { s with host := s.host.hushed }

/-- Hosts that are alike but for messages. -/
theorem Host.hushed_eq {h h' : Host μ} : h.hushed = h'.hushed ↔
    h.machine = h'.machine ∧ h.disk = h'.disk ∧ h.clock = h'.clock ∧ h.answers = h'.answers ∧
      (h.trail.filter fun x => !x.isSaid) = h'.trail.filter fun x => !x.isSaid := by
  cases h
  cases h'
  simp [hushed]

theorem Session.hushed_eq {s s' : Session μ} : s.hushed = s'.hushed ↔
    s.host.hushed = s'.host.hushed ∧ s.memory = s'.memory ∧ s.store = s'.store := by
  cases s
  cases s'
  simp [hushed]

/-! ## Parts of calls -/

namespace Session

variable {α : Type}

theorem deaf_onHost {a : Call μ α} (h : a.DependsOn Host.hushed) : (onHost a).DependsOn hushed := by
  intro s t hst
  obtain ⟨hhost, hmemory, hstore⟩ := hushed_eq.mp hst
  obtain ⟨hr, hafter⟩ := h _ _ hhost
  exact ⟨hr, hushed_eq.mpr ⟨hafter, hmemory, hstore⟩⟩

theorem deaf_memory (a : Act Memory α) : (memoryPart.lift a : Work μ α).DependsOn hushed := by
  intro s t hst
  obtain ⟨hhost, hmemory, hstore⟩ := hushed_eq.mp hst
  have hget : memoryPart.get s = memoryPart.get t := hmemory
  rw [Part.on_lift, Part.on_lift, hget]
  exact ⟨rfl, hushed_eq.mpr ⟨hhost, rfl, hstore⟩⟩

theorem deaf_report (m : Message) : (Host.report m : Call μ Unit).DependsOn Host.hushed := by
  intro h h' hh
  obtain ⟨hmachine, hdisk, hclock, hanswers, htrail⟩ := Host.hushed_eq.mp hh
  exact ⟨rfl, Host.hushed_eq.mpr ⟨hmachine, hdisk, hclock, hanswers, htrail⟩⟩

theorem deaf_now : (Host.now : Call μ Moment).DependsOn Host.hushed := by
  intro h h' hh
  exact ⟨congrArg Except.ok (Host.hushed_eq.mp hh).2.2.1, hh⟩

theorem deaf_onDisk (a : Act Disk α) : (Host.onDisk a : Call μ α).DependsOn Host.hushed := by
  intro h h' hh
  obtain ⟨hmachine, hdisk, hclock, hanswers, htrail⟩ := Host.hushed_eq.mp hh
  have hget : Host.diskPart.get h = Host.diskPart.get h' := hdisk
  rw [Host.onDisk, Part.on_lift, Part.on_lift, hget]
  exact ⟨rfl, Host.hushed_eq.mpr ⟨hmachine, rfl, hclock, hanswers, htrail⟩⟩

end Session

namespace Engine

variable {e : Engine μ} {test : Session μ → Bool} {α : Type}

/-! ## Calls -/

/-- Neither the mutator nor the detector looks at messages. -/
structure Deaf (e : Engine μ) : Prop where
  asks : ∀ {α : Type} {a : Call μ α}, e.mutator.Asks α a → a.DependsOn Host.hushed
  look : ∀ t, (e.alreadyApplied t).DependsOn Host.hushed

namespace Deaf

theorem basic (h : e.Deaf) (htest : ∀ s t, s.hushed = t.hushed → test s = test t)
    {a : Work μ α} (ha : e.Basic test α a) : a.DependsOn hushed := by
  cases ha with
  | operation h' =>
    cases h' with
    | request h' => exact deaf_onHost (h.asks h')
    | memory a => exact deaf_memory a
    | report m => exact deaf_onHost (deaf_report m)
  | look t => exact deaf_onHost (h.look t)
  | stop => exact fun s t hst => ⟨congrArg Except.ok (htest s t hst), hst⟩
  | now => exact deaf_onHost deaf_now
  | disk a => exact deaf_onHost (deaf_onDisk a)
  | opened => exact fun s t hst => ⟨congrArg Except.ok (hushed_eq.mp hst).2.2, hst⟩
  | putStore st =>
    intro s t hst
    obtain ⟨hhost, hmemory, -⟩ := hushed_eq.mp hst
    exact ⟨rfl, hushed_eq.mpr ⟨hhost, hmemory, rfl⟩⟩

/-- **Calls do not look at messages** where their parts do not. -/
theorem call (h : e.Deaf) (htest : ∀ s t, s.hushed = t.hushed → test s = test t)
    (action : Action) (t : Tweak) : (e.call action test t).DependsOn hushed := by
  cases action with
  | apply => exact Act.Woven.dependsOn (h.basic htest) (Calls.apply t)
  | revert => exact Act.Woven.dependsOn (h.basic htest) (Calls.revert t)

end Deaf
end Engine

/-! ## The machine in memory -/

namespace Machine

theorem deaf_onMachine {α : Type} (a : Act Machine α) :
    (Host.onMachine a).DependsOn Host.hushed := by
  intro h h' hh
  obtain ⟨hmachine, hdisk, hclock, hanswers, htrail⟩ := Host.hushed_eq.mp hh
  have hget : Host.machinePart.get h = Host.machinePart.get h' := hmachine
  rw [Host.onMachine, Part.on_lift, Part.on_lift, hget]
  exact ⟨rfl, Host.hushed_eq.mpr ⟨rfl, hdisk, hclock, hanswers, htrail⟩⟩

theorem deaf_ask {α : Type} (r : Request) (f : Machine → Except Failure α) :
    (ask r f).DependsOn Host.hushed := by
  refine .bind (deaf_onMachine _) fun refused? => ?_
  cases refused? with
  | some failure => exact .throw failure
  | none => exact .bind (deaf_onMachine _) fun _ => .result _

theorem deaf_perform (w : Write) : (perform w).DependsOn Host.hushed := by
  have hrecord : (Host.record (.wrote w) : Call Machine Unit).DependsOn Host.hushed := by
    intro h h' hh
    obtain ⟨hmachine, hdisk, hclock, hanswers, htrail⟩ := Host.hushed_eq.mp hh
    exact ⟨rfl, Host.hushed_eq.mpr
      ⟨hmachine, hdisk, hclock, hanswers, congrArg (Event.wrote w :: ·) htrail⟩⟩
  have hwait : ∀ micros, (Host.wait micros : Call Machine Unit).DependsOn Host.hushed := by
    intro micros h h' hh
    obtain ⟨hmachine, hdisk, hclock, hanswers, htrail⟩ := Host.hushed_eq.mp hh
    have hlater : (⟨h.clock.micros + micros⟩ : Moment) = ⟨h'.clock.micros + micros⟩ := by
      rw [hclock]
    exact ⟨rfl, Host.hushed_eq.mpr ⟨hmachine, hdisk, hlater, hanswers, htrail⟩⟩
  refine .bind (deaf_onMachine _) fun refused? => ?_
  cases refused? with
  | some failure => exact .throw failure
  | none =>
    exact .bind hrecord fun _ => .bind (deaf_onMachine _) fun micros => .bind (deaf_onMachine _)
      fun reply => .bind (hwait micros) fun _ => .pure reply

/-- An engine on a machine in memory does not look at messages. -/
theorem deaf {e : Engine Machine} (hmutator : e.mutator = mutator) (hdetector : e.detector = none) :
    e.Deaf where
  asks h := by
    rw [hmutator] at h
    cases h with
    | write w => exact deaf_perform w
    | readValue | keyExists | queryService | pathExists | readText => exact deaf_ask _ _
  look t := by
    rw [Engine.alreadyApplied_off (.inr hdetector)]
    exact .pure _

end Machine
end TweakEngine
