/-
# A run and its dry run side by side

A dry run and a run of the same steps read different machines as soon as the run has written
something: the dry run goes on reading the machine that both began with.  `Abreast` says in
what the two stay alike, which is all that their decisions depend on: the settings and the
services that there are, some paths of which the run has not yet changed whether they are
taken, and which places hold a capture of a file.  It also says that what is planned is what
is written.  `Shadows` is the triple of two actions that are run side by side, with a rule for
everything that an operation is made of.

A write that the machine does not carry out, or that cannot be put in words, ends only one of
the two runs.  So the triple speaks of runs whose writes are all sound (`Write.Sound`), and as
this is known only in the end, it also says that nothing is ever taken off the record
(`Grows`).
-/

import TweakEngine.Proofs.OtherSteps
import TweakEngine.Proofs.Spots
import TweakEngine.Proofs.TweakCalls
import TweakEngine.System.DryRun
import Mathlib.Data.List.Infix

namespace TweakEngine

open Session

/-! ## Writes -/

namespace Write

/-- A write that some machine carries out, and that can be put in words. -/
structure Sound (w : Write) : Prop where
  carried : ∃ (m : Machine) (x : w.Reply) (m' : Machine), m.apply w = .ok (x, m')
  worded : ∃ text, w.plan = .ok text

/-- The paths that a write makes or takes away. -/
def touches : Write → List Datum
  | writeFile path _ _ | createDirectory path | deletePath path => [path]
  | movePath source target => [source, target]
  | copyPath _ target => [target]
  | _ => []

/-- What a write does not touch it does not set. -/
theorem sets_of_untouched {w : Write} {p : String} (hp : .text p ∉ w.touches) :
    w.sets (.file p) = none ∧ w.sets (.directory p) = none := by
  cases w with
  | writeFile path | createDirectory path | deletePath path =>
    cases path with
    | text q =>
      have hq : q ≠ p := fun h => hp (by rw [h]; exact List.mem_singleton_self _)
      simp [sets, hq]
    | _ => exact ⟨rfl, rfl⟩
  | _ => exact ⟨rfl, rfl⟩

end Write

namespace Machine

variable {m m' m₀ : Machine} {w : Write} {r : w.Reply} {P P' : Datum → Prop}

/-- Whether a path is taken, by the files and directories under it. -/
theorem hasPath_eq {path : Datum} (h : ∀ p, path = .text p →
      m'.holding (.file p) = m.holding (.file p) ∧ m'.holding (.directory p) = m.holding (.directory p)) :
    m'.hasPath path = m.hasPath path := by
  cases path with
  | text p =>
    obtain ⟨hfile, hdirectory⟩ := h p rfl
    have hfile : Assoc.get? p m'.files = Assoc.get? p m.files := hfile
    have hdirectory : m'.directories.contains p = m.directories.contains p := hdirectory
    rw [hasPath, hasPath, Assoc.has, Assoc.has, hfile, hdirectory]
  | _ => rfl

/-- A copy makes nothing but its target. -/
theorem holding_duplicate {source target : Datum} (h : m.duplicate source target = .ok m')
    {p : String} (hp : Datum.text p ≠ target) :
    m'.holding (.file p) = m.holding (.file p) ∧
      m'.holding (.directory p) = m.holding (.directory p) := by
  obtain ⟨t, ht, h⟩ := ok_of_bind h
  have htp : t ≠ p := by
    cases target <;> cases ht
    rintro rfl
    exact hp rfl
  cases source with
  | text q =>
    dsimp only at h
    split at h
    · cases h
      exact ⟨(Assoc.get?_put ..).trans (if_neg htp), rfl⟩
    · split at h <;> cases h
      refine ⟨rfl, (List.contains_append ..).trans ?_⟩
      rw [contains_filter_ne, if_neg htp]
      simp [holding, htp.symm]
  | _ => cases h

/-- A renaming makes nothing but its target and takes away nothing but its source. -/
theorem holding_relocate {source target : Datum} (h : m.relocate source target = .ok m')
    {p : String} (hs : Datum.text p ≠ source) (hp : Datum.text p ≠ target) :
    m'.holding (.file p) = m.holding (.file p) ∧
      m'.holding (.directory p) = m.holding (.directory p) := by
  obtain ⟨t, ht, h⟩ := ok_of_bind h
  have htp : t ≠ p := by
    cases target <;> cases ht
    rintro rfl
    exact hp rfl
  cases source with
  | text q =>
    have hqp : q ≠ p := by
      rintro rfl
      exact hs rfl
    dsimp only at h
    split at h
    · cases h
      refine ⟨(Assoc.get?_put ..).trans ?_, rfl⟩
      rw [if_neg htp, Assoc.get?_erase, if_neg hqp]
      rfl
    · split at h <;> cases h
      refine ⟨rfl, (List.contains_append ..).trans ?_⟩
      rw [contains_filter_ne, if_neg htp, contains_filter_ne, if_neg hqp]
      simp [holding, htp.symm]
  | _ => cases h

/-- **A write leaves alone whether a path is taken** that it does not touch. -/
theorem hasPath_apply (h : m.apply w = .ok (r, m')) {path : Datum} (hp : path ∉ w.touches) :
    m'.hasPath path = m.hasPath path := by
  refine hasPath_eq fun p hpath => ?_
  subst hpath
  cases hw : w.overwrites with
  | true =>
    obtain ⟨hfile, hdirectory⟩ := Write.sets_of_untouched hp
    rw [holding_apply hw h, holding_apply hw h, hfile, hdirectory]
    exact ⟨rfl, rfl⟩
  | false =>
    cases w with
    | movePath source target =>
      obtain ⟨m₁, h₁, h⟩ := ok_of_bind h
      cases h
      simp only [Write.touches, List.mem_cons, List.not_mem_nil, or_false, not_or] at hp
      exact holding_relocate h₁ hp.1 hp.2
    | copyPath source target =>
      obtain ⟨m₁, h₁, h⟩ := ok_of_bind h
      cases h
      exact holding_duplicate h₁ fun e => hp (by rw [e]; exact List.mem_singleton_self _)
    | _ => cases hw

/-- Two machines of one kin of which some paths are taken alike. -/
structure Alike (P : Datum → Prop) (m m' : Machine) : Prop where
  kin : m.Kin m'
  paths : ∀ p, P p → m'.hasPath p = m.hasPath p

theorem Alike.refl (P : Datum → Prop) (m : Machine) : Alike P m m := ⟨.refl m, fun _ _ => rfl⟩

theorem Alike.mono (h : Alike P m m') (hP : ∀ p, P' p → P p) : Alike P' m m' :=
  ⟨h.kin, fun p hp => h.paths p (hP p hp)⟩

/-- A write leaves those paths alike that it does not touch. -/
theorem Alike.apply (h : Alike P m₀ m) (ha : m.apply w = .ok (r, m'))
    (hP : ∀ p, P' p → P p ∧ p ∉ w.touches) : Alike P' m₀ m' :=
  ⟨h.kin.trans (.apply ha), fun p hp =>
    (hasPath_apply ha (hP p hp).2).trans (h.paths p (hP p hp).1)⟩

theorem Alike.willing (h : Alike P m₀ m) (hm : m₀.Willing) : m.Willing :=
  hm.of_settings h.kin.settings

/-- Whether there is a service is alike. -/
theorem Kin.has_service (h : m.Kin m') (n : String) :
    Assoc.has n m'.services = Assoc.has n m.services := by
  have hname := congrArg Option.isSome (h.names n)
  rwa [Option.isSome_map, Option.isSome_map] at hname

end Machine

/-- The texts of a sound write can be read on every machine, so that it fails operationally at
most. -/
theorem Write.Sound.goesOn_apply {w : Write} (hw : w.Sound) (m : Machine) :
    goesOn (m.apply w) = true := by
  obtain ⟨⟨m₁, x, m₂, h⟩, -⟩ := hw
  have htext : ∀ {d : Datum} {α : Type} {k : String → Except Failure α} {y : α},
      Machine.textOf d >>= k = .ok y → d.IsText := by
    intro d α k y h
    obtain ⟨p, hp, -⟩ := ok_of_bind h
    cases d <;> cases hp
    exact ⟨_, rfl⟩
  have hservice : ∀ {d : Datum} {f : Machine.Service → Machine.Service} {m₃ : Machine},
      m₁.withService d f = .ok m₃ → goesOn (m.withService d f) = true := by
    intro d f m₃ h
    obtain ⟨n, hn, -⟩ := ok_of_bind h
    unfold Machine.withService
    rw [hn, ok_bind]
    split <;> rfl
  cases w with
  | setValue hive path name value =>
    obtain ⟨p, hp, h⟩ := ok_of_bind h
    obtain ⟨n, hn, -⟩ := ok_of_bind h
    simp only [Machine.apply, hp, hn, ok_bind]
    rfl
  | deleteValue hive path name =>
    obtain ⟨p, hp, h⟩ := ok_of_bind h
    obtain ⟨n, hn, -⟩ := ok_of_bind h
    simp only [Machine.apply, hp, hn, ok_bind]
    split <;> rfl
  | createKey hive path =>
    obtain ⟨p, hp, -⟩ := ok_of_bind h
    simp only [Machine.apply, hp, ok_bind]
    split <;> rfl
  | deleteKey hive path =>
    obtain ⟨p, hp, -⟩ := ok_of_bind h
    simp only [Machine.apply, hp, ok_bind]
    rfl
  | stopService | startService | setStartup =>
    obtain ⟨m₃, h₃, -⟩ := ok_of_bind h
    exact Engine.goesOn_bind (hservice h₃) fun _ => rfl
  | runScript => rfl
  | writeFile | createDirectory =>
    exact Engine.goesOn_bind (Engine.goesOn_textOf (htext h)) fun _ => rfl
  | deletePath path => exact Engine.goesOn_bind (Engine.goesOn_removePath m path) fun _ => rfl
  | movePath source target =>
    obtain ⟨m₃, h₃, -⟩ := ok_of_bind h
    exact Engine.goesOn_bind (Engine.goesOn_relocate m source (htext h₃)) fun _ => rfl
  | copyPath source target =>
    obtain ⟨m₃, h₃, -⟩ := ok_of_bind h
    exact Engine.goesOn_bind (Engine.goesOn_duplicate m source (htext h₃)) fun _ => rfl

/-! ## Two sessions side by side -/

namespace Session

/-- The record of writes has only grown. -/
def Grows (s s' : Session Machine) : Prop := s.host.writes <+: s'.host.writes

theorem Grows.refl (s : Session Machine) : s.Grows s := List.prefix_rfl

theorem Grows.trans {s s' s'' : Session Machine} (h : s.Grows s') (h' : s'.Grows s'') :
    s.Grows s'' := List.IsPrefix.trans h h'

/-- All writes that have been put on record since `s₀` are sound. -/
def SoundSince (s₀ s : Session Machine) : Prop :=
  ∀ w ∈ s.host.writes.drop s₀.host.writes.length, w.Sound

theorem SoundSince.of_grows {s₀ s s' : Session Machine} (h : s.Grows s') (hs : SoundSince s₀ s') :
    SoundSince s₀ s := fun w hw => hs w ((List.IsPrefix.drop h _).subset hw)

theorem SoundSince.of_ledger {s₀ s₀' s s' : Session Machine} (h : SoundSince s₀ s)
    (hs₀ : Engine.ledger s₀' = Engine.ledger s₀) (hs : Engine.ledger s' = Engine.ledger s) :
    SoundSince s₀' s' := by
  have hwrites₀ : s₀'.host.writes = s₀.host.writes := congrArg (·.2.1) hs₀
  have hwrites : s'.host.writes = s.host.writes := congrArg (·.2.1) hs
  unfold SoundSince
  rw [hwrites₀, hwrites]
  exact h

end Session

/-- A run, in the session `s`, and its dry run, in the session `d`, that both began in `s₀`.
Of the paths with `P` the run has not changed whether they are taken. -/
structure Abreast (s₀ : Session Machine) (P : Datum → Prop) (s d : Session Machine) : Prop where
  alike : s₀.host.machine.Alike P s.host.machine
  still : d.host.machine = s₀.host.machine
  unwritten : d.host.writes = s₀.host.writes
  slots : ∀ slot, Assoc.has slot d.memory.files = Assoc.has slot s.memory.files
  record : ∃ ws ps, s.host.writes = s₀.host.writes ++ ws ∧ d.host.plans = s₀.host.plans ++ ps ∧
    ws.map Write.plan = ps.map .ok

variable {s₀ s d : Session Machine} {P P₁ P' : Datum → Prop} {α β : Type}

theorem Abreast.refl (s₀ : Session Machine) (P : Datum → Prop) : Abreast s₀ P s₀ s₀ :=
  ⟨.refl P _, rfl, rfl, fun _ => rfl, [], [], (List.append_nil _).symm, (List.append_nil _).symm, rfl⟩

theorem Abreast.mono (h : Abreast s₀ P s d) (hP : ∀ p, P' p → P p) : Abreast s₀ P' s d :=
  { h with alike := h.alike.mono hP }

/-- What changes nothing that counts leaves the two side by side. -/
theorem Abreast.of_eq {s' d' : Session Machine} (h : Abreast s₀ P s d)
    (hs : Engine.ledger s' = Engine.ledger s) (hd : Engine.ledger d' = Engine.ledger d)
    (hslots : ∀ slot, Assoc.has slot d'.memory.files = Assoc.has slot s'.memory.files) :
    Abreast s₀ P s' d' := by
  obtain ⟨hmachine, hs⟩ := Prod.mk.inj hs
  obtain ⟨hwrites, -⟩ := Prod.mk.inj hs
  obtain ⟨hmachine', hd⟩ := Prod.mk.inj hd
  obtain ⟨hwrites', hplans'⟩ := Prod.mk.inj hd
  have hmachine : s'.host.machine = s.host.machine := hmachine
  have hmachine' : d'.host.machine = d.host.machine := hmachine'
  exact ⟨hmachine ▸ h.alike, hmachine'.trans h.still, hwrites'.trans h.unwritten, hslots,
    by rw [hwrites, hplans']; exact h.record⟩

/-! ### Writing -/

theorem writes_wrote {μ : Type} (h : Host μ) (w : Write) :
    { h with trail := .wrote w :: h.trail }.writes = h.writes ++ [w] := List.reverse_cons

theorem plans_planned {μ : Type} (h : Host μ) (text : String) :
    { h with trail := .planned text :: h.trail }.plans = h.plans ++ [text] := List.reverse_cons

/-- A write is put on record and never taken off. -/
theorem perform_grows (w : Write) : (onHost (Machine.perform w)).Along Grows := by
  intro s
  cases hf : s.host.machine.faults (.write w) with
  | some f =>
    simp only [onHost, Part.on_lift, Machine.perform, Host.onMachine, Act.on_bind, Act.on_view,
      hostPart, Host.machinePart, hf]
    exact .refl s
  | none =>
    simp only [onHost, Part.on_lift, Machine.perform, Host.onMachine, Act.on_bind, Act.on_view,
      hostPart, Host.machinePart, hf, Host.record, Act.on_change, Act.on_of]
    cases s.host.machine.apply w with
    | error f => exact ⟨[w], (writes_wrote s.host w).symm⟩
    | ok x => exact ⟨[w], (writes_wrote s.host w).symm⟩

/-- A willing machine puts a write on record and carries it out if it can. -/
theorem perform_effect (hm : s.host.machine.Willing) (w : Write) :
    ∃ s', (onHost (Machine.perform w)).on s = (Prod.fst <$> s.host.machine.apply w, s') ∧
      s'.host.machine =
        ((Prod.snd <$> s.host.machine.apply w).toOption.getD s.host.machine) ∧
      s'.host.writes = s.host.writes ++ [w] ∧ s'.memory = s.memory := by
  simp only [onHost, Part.on_lift, Machine.perform, Host.onMachine, Act.on_bind, Act.on_view,
    hostPart, Host.machinePart, hm (.write w), Host.record, Act.on_change, Act.on_of]
  cases s.host.machine.apply w with
  | error f => exact ⟨_, rfl, rfl, writes_wrote s.host w, rfl⟩
  | ok x => exact ⟨_, rfl, rfl, writes_wrote s.host w, rfl⟩

/-- A write that can be put in words is planned and taken to have gone well. -/
theorem planned_effect {w : Write} {text : String} (hw : w.plan = .ok text) (d : Session Machine) :
    ∃ d', (onHost w.planned).on d = (.ok w.wellDone, d') ∧ d'.host.machine = d.host.machine ∧
      d'.host.writes = d.host.writes ∧ d'.host.plans = d.host.plans ++ [text] ∧
      d'.memory = d.memory := by
  simp only [onHost, Part.on_lift, Write.planned, Act.on_bind, hw, Act.on_result, hostPart,
    Host.record, Act.on_change]
  exact ⟨_, rfl, rfl, rfl, plans_planned d.host text, rfl⟩

/-- A sound write, carried out or not, and its plan lead on side by side. -/
theorem Abreast.write {w : Write} (hm : s₀.host.machine.Willing) (h : Abreast s₀ P s d)
    (hw : w.Sound) (hP : ∀ p, P' p → P p ∧ p ∉ w.touches) :
    ∃ s' d', (onHost (Machine.perform w)).on s = (Prod.fst <$> s.host.machine.apply w, s') ∧
      (onHost w.planned).on d = (.ok w.wellDone, d') ∧ Abreast s₀ P' s' d' := by
  obtain ⟨text, htext⟩ := hw.worded
  obtain ⟨s', hs', hmachine, hwrites, hmemory⟩ := perform_effect (h.alike.willing hm) w
  obtain ⟨d', hd', hmachine', hwrites', hplans', hmemory'⟩ := planned_effect htext d
  obtain ⟨ws, ps, hws, hps, hmap⟩ := h.record
  refine ⟨s', d', hs', hd', ?_, hmachine'.trans h.still, hwrites'.trans h.unwritten, ?_, ?_⟩
  · rw [hmachine]
    cases ha : s.host.machine.apply w with
    | error f => exact h.alike.mono fun p hp => (hP p hp).1
    | ok x => exact h.alike.apply ha hP
  · rw [hmemory, hmemory']
    exact h.slots
  · refine ⟨ws ++ [w], ps ++ [text], ?_, ?_, ?_⟩
    · rw [hwrites, hws, List.append_assoc]
    · rw [hplans', hps, List.append_assoc]
    · rw [List.map_append, List.map_append, hmap]
      exact congrArg (ps.map .ok ++ [·]) htext

/-- The last write on record is sound when all are. -/
theorem Session.SoundSince.last {w : Write} (hs : SoundSince s₀ s)
    (h : ∃ ws, s.host.writes = s₀.host.writes ++ ws ++ [w]) : w.Sound := by
  obtain ⟨ws, h⟩ := h
  refine hs w ?_
  rw [h, List.append_assoc, List.drop_left]
  exact List.mem_append_right _ (List.mem_singleton_self w)

/-! ## Triples -/

/-- Both end alike: with values in the relation `R`, or with the same failure. -/
def Both (R : α → α → Prop) : Except Failure α → Except Failure α → Prop
  | .ok x, .ok y => R x y
  | .error f, .error g => f = g
  | _, _ => False

/-- After both the run goes on, or after both it ends. -/
def KeepsPace (r r' : Except Failure α) : Prop := goesOn r = goesOn r'

/-- An action that leaves the session as it is and, if `c` holds, lets the run go on. -/
def Tacit (c : Prop) (a : Work Machine α) : Prop :=
  ∀ s, (a.on s).2 = s ∧ (c → goesOn (a.on s).1 = true)

namespace Tacit

variable {c : Prop} {a : Work Machine α} {k : α → Work Machine β}

theorem pure (x : α) : Tacit c (Pure.pure x : Work Machine α) := fun _ => ⟨rfl, fun _ => rfl⟩

theorem throw_bind {f : Failure} (hf : f.isOperational = true) :
    Tacit c (MonadExcept.throw f >>= k) := fun _ => ⟨rfl, fun _ => hf⟩

theorem result {r : Except Failure α} (hr : c → goesOn r = true) :
    Tacit c (Act.result r : Work Machine α) := fun _ => ⟨rfl, hr⟩

theorem bind (ha : Tacit c a) (hk : ∀ x, Tacit c (k x)) : Tacit c (a >>= k) := by
  intro s
  have h := ha s
  rw [Act.on_bind]
  revert h
  rcases a.on s with ⟨f | x, s'⟩ <;> intro h
  · exact h
  · obtain ⟨rfl, -⟩ := h
    exact hk x s'

end Tacit

/-- A reply that is given to a write by a machine of the kin of `m`, or taken for granted. -/
def Write.MayReply (m : Machine) (w : Write) (x : w.Reply) : Prop :=
  x = w.wellDone ∨ ∃ m' m'', m.Kin m' ∧ m'.apply w = .ok (x, m'')

/-- An action and its counterpart in the dry run, begun side by side with the paths `P`, end
side by side with the paths `P'` and with results in `Q`, if all writes are sound. -/
structure Shadows (s₀ : Session Machine) (P P' : Datum → Prop) (a b : Work Machine α)
    (Q : Except Failure α → Except Failure α → Prop) : Prop where
  grows : a.Along Grows
  ends : ∀ s d, Abreast s₀ P s d → SoundSince s₀ (a.on s).2 →
    Abreast s₀ P' (a.on s).2 (b.on d).2 ∧ Q (a.on s).1 (b.on d).1

namespace Shadows

variable {a b : Work Machine α} {k l : α → Work Machine β} {R : α → α → Prop}
  {Q : Except Failure β → Except Failure β → Prop}

/-- What changes neither machine nor record nor captures. -/
theorem of_kept {Q : Except Failure α → Except Failure α → Prop}
    (ha : ∀ s, Engine.ledger (a.on s).2 = Engine.ledger s ∧ (a.on s).2.memory = s.memory)
    (hb : ∀ s, Engine.ledger (b.on s).2 = Engine.ledger s ∧ (b.on s).2.memory = s.memory)
    (hP : ∀ p, P' p → P p) (h : ∀ s d, Abreast s₀ P s d → Q (a.on s).1 (b.on d).1) :
    Shadows s₀ P P' a b Q where
  grows s := ⟨[], (List.append_nil _).trans (congrArg (·.2.1) (ha s).1).symm⟩
  ends s d hsd _ := by
    refine ⟨(hsd.of_eq (ha s).1 (hb d).1 fun slot => ?_).mono hP, h s d hsd⟩
    rw [(ha s).2, (hb d).2]
    exact hsd.slots slot

/-- What leaves both sessions as they are. -/
theorem of_still {Q : Except Failure α → Except Failure α → Prop} (ha : ∀ s, (a.on s).2 = s)
    (hb : ∀ s, (b.on s).2 = s) (hP : ∀ p, P' p → P p)
    (h : ∀ s d, Abreast s₀ P s d → Q (a.on s).1 (b.on d).1) : Shadows s₀ P P' a b Q :=
  .of_kept (fun s => by rw [ha]; exact ⟨rfl, rfl⟩) (fun s => by rw [hb]; exact ⟨rfl, rfl⟩) hP h

theorem imp {R' : α → α → Prop} (h : Shadows s₀ P P' a b (Both R)) (hR : ∀ x y, R x y → R' x y) :
    Shadows s₀ P P' a b (Both R') where
  grows := h.grows
  ends s d hsd hsound := by
    obtain ⟨hsd', hends⟩ := h.ends s d hsd hsound
    refine ⟨hsd', ?_⟩
    revert hends
    rcases (a.on s).1 with f | x <;> rcases (b.on d).1 with g | y
    · exact id
    · exact id
    · exact id
    · exact hR x y

theorem pure {Q : Except Failure α → Except Failure α → Prop} {x y : α} (hP : ∀ p, P' p → P p)
    (h : Q (.ok x) (.ok y)) : Shadows s₀ P P' (Pure.pure x) (Pure.pure y) Q :=
  .of_still (fun _ => rfl) (fun _ => rfl) hP fun _ _ _ => h

theorem throw {Q : Except Failure α → Except Failure α → Prop} {f : Failure}
    (hP : ∀ p, P' p → P p) (h : Q (.error f) (.error f)) :
    Shadows s₀ P P' (MonadExcept.throw f) (MonadExcept.throw f) Q :=
  .of_still (fun _ => rfl) (fun _ => rfl) hP fun _ _ _ => h

theorem throw_bind {f : Failure} (hP : ∀ p, P' p → P p) (h : Q (.error f) (.error f)) :
    Shadows s₀ P P' (MonadExcept.throw f >>= k) (MonadExcept.throw f >>= l) Q :=
  .of_still (fun _ => rfl) (fun _ => rfl) hP fun _ _ _ => h

/-- One action after the other. -/
theorem bind_of (h : Shadows s₀ P P₁ a b (Both R)) (hP : ∀ p, P' p → P₁ p)
    (hQ : ∀ f, Q (.error f) (.error f)) (hgrows : ∀ x, (k x).Along Grows)
    (hk : ∀ x y, R x y → Shadows s₀ P₁ P' (k x) (l y) Q) :
    Shadows s₀ P P' (a >>= k) (b >>= l) Q where
  grows := .bind .trans h.grows hgrows
  ends s d hsd := by
    have hends := h.ends s d hsd
    rw [Act.on_bind, Act.on_bind]
    revert hends
    rcases a.on s with ⟨f | x, s'⟩ <;> rcases b.on d with ⟨g | y, d'⟩ <;> intro hends hsound
    · obtain ⟨hsd', hfg⟩ := hends hsound
      cases hfg
      exact ⟨hsd'.mono hP, hQ f⟩
    · exact (hends hsound).2.elim
    · exact (hends (hsound.of_grows (hgrows x s'))).2.elim
    · obtain ⟨hsd', hxy⟩ := hends (hsound.of_grows (hgrows x s'))
      exact (hk x y hxy).ends s' d' hsd' hsound

theorem bind (h : Shadows s₀ P P₁ a b (Both R)) (hR : ∀ x, R x x) (hP : ∀ p, P' p → P₁ p)
    (hQ : ∀ f, Q (.error f) (.error f)) (hk : ∀ x y, R x y → Shadows s₀ P₁ P' (k x) (l y) Q) :
    Shadows s₀ P P' (a >>= k) (b >>= l) Q :=
  h.bind_of hP hQ (fun x => (hk x x (hR x)).grows) hk

theorem result_bind {r : Except Failure α} (hP : ∀ p, P' p → P p)
    (hQ : ∀ f, Q (.error f) (.error f)) (hk : ∀ x, r = .ok x → Shadows s₀ P P' (k x) (l x) Q) :
    Shadows s₀ P P' (Act.result r >>= k) (Act.result r >>= l) Q := by
  cases r with
  | error f => exact .of_still (fun _ => rfl) (fun _ => rfl) hP fun _ _ _ => hQ f
  | ok x =>
    have hx := hk x rfl
    exact ⟨hx.grows, hx.ends⟩

theorem say_bind {k l : PUnit → Work Machine β} {level : Level} {speaker text : String}
    (hk : Shadows s₀ P P' (k ()) (l ()) Q) :
    Shadows s₀ P P' (say level speaker text >>= k) (say level speaker text >>= l) Q where
  grows s := hk.grows ((say level speaker text).on s).2
  ends s d hsd := hk.ends ((say level speaker text).on s).2 ((say level speaker text).on d).2
    (hsd.of_eq rfl rfl hsd.slots)

/-- Asking about something that is alike. -/
theorem ask (hm : s₀.host.machine.Willing) {r : Request} {f : Machine → Except Failure α}
    (hf : ∀ m, s₀.host.machine.Alike P m → Both R (f m) (f s₀.host.machine)) :
    Shadows s₀ P P (onHost (Machine.ask r f)) (onHost (Machine.ask r f)) (Both R) := by
  refine .of_still ?_ ?_ (fun _ => id) fun s d hsd => ?_
  · exact fun s => by rw [Engine.ask_answers]
  · exact fun s => by rw [Engine.ask_answers]
  · have hs : s.core.machine.Willing := hsd.alike.willing hm
    have hd : d.core.machine = s₀.host.machine := hsd.still
    have hd' : d.core.machine.Willing := hd ▸ hm
    rw [Engine.ask_on hs, Engine.ask_on hd', hd]
    exact hf _ hsd.alike

theorem ask_bind (hm : s₀.host.machine.Willing) {r : Request} {f : Machine → Except Failure α}
    (hf : ∀ m, s₀.host.machine.Alike P m → Both R (f m) (f s₀.host.machine)) (hR : ∀ x, R x x)
    (hP : ∀ p, P' p → P p) (hQ : ∀ f, Q (.error f) (.error f))
    (hk : ∀ x y, R x y → Shadows s₀ P P' (k x) (l y) Q) :
    Shadows s₀ P P' (onHost (Machine.ask r f) >>= k) (onHost (Machine.ask r f) >>= l) Q :=
  (ask hm hf).bind hR hP hQ hk

/-- Capturing something other than a file. -/
theorem capture_bind {γ : Type} {part : Part (Session Machine) (Captures γ)} {slot : Slot} {c c' : γ}
    {k l : Bool → Work Machine β}
    (hpart : ∀ c s, Engine.ledger (part.set c s) = Engine.ledger s ∧
      (part.set c s).memory.files = s.memory.files)
    (hP : ∀ p, P' p → P p) (hQ : ∀ f, Q (.error f) (.error f))
    (hk : ∀ x y, Shadows s₀ P P' (k x) (l y) Q) :
    Shadows s₀ P P' (capture part slot c >>= k) (capture part slot c' >>= l) Q := by
  refine bind (R := fun _ _ => True) ⟨fun s => ?_, fun s d hsd _ => ⟨?_, trivial⟩⟩
    (fun _ => trivial) hP hQ fun x y _ => hk x y
  · have hwrites := congrArg (·.2.1) (hpart (Captures.keep slot c (part.get s)).1 s).1
    exact ⟨[], (List.append_nil _).trans hwrites.symm⟩
  · refine hsd.of_eq (hpart _ s).1 (hpart _ d).1 fun slot' => ?_
    have hs := (hpart (Captures.keep slot c (part.get s)).1 s).2
    have hd := (hpart (Captures.keep slot c' (part.get d)).1 d).2
    refine (congrArg (Assoc.has slot') hd).trans ((hsd.slots slot').trans ?_)
    exact (congrArg (Assoc.has slot') hs).symm

/-- Which places hold a capture after something has been captured. -/
theorem has_keep {γ : Type} (slot slot' : Slot) (c : γ) (t : Captures γ) :
    Assoc.has slot' (Captures.keep slot c t).1 = (decide (slot = slot') || Assoc.has slot' t) := by
  unfold Captures.keep
  cases h : Assoc.get? slot t with
  | none => exact Assoc.has_put slot slot' c t
  | some x =>
    by_cases hslot : slot = slot'
    · subst hslot
      simp [Assoc.has, h]
    · simp [hslot]

/-- Capturing a file tells in both runs alike whether it was the first capture. -/
theorem captureFiles {slot : Slot} {c c' : FileCapture} :
    Shadows s₀ P P (capture filesPart slot c) (capture filesPart slot c') (Both Eq) where
  grows s := List.prefix_rfl
  ends s d hsd _ := by
    refine ⟨hsd.of_eq rfl rfl fun slot' => ?_, ?_⟩
    · have h := hsd.slots slot'
      show Assoc.has slot' (Captures.keep slot c' d.memory.files).1 =
        Assoc.has slot' (Captures.keep slot c s.memory.files).1
      rw [has_keep, has_keep, h]
    · have h := hsd.slots slot
      show (Captures.keep slot c s.memory.files).2 = (Captures.keep slot c' d.memory.files).2
      unfold Captures.keep
      unfold Assoc.has at h
      revert h
      cases Assoc.get? slot s.memory.files <;> cases Assoc.get? slot d.memory.files <;> intro h
      · rfl
      · cases h
      · cases h
      · rfl

/-! ### Writing -/

/-- A write that comes last: what follows changes nothing and lets the run go on. -/
theorem write_last {w : Write} {k : w.Reply → Work Machine β} (hm : s₀.host.machine.Willing)
    (hP : ∀ p, P' p → P p ∧ p ∉ w.touches)
    (hk : ∀ x, Tacit (w.MayReply s₀.host.machine x) (k x)) :
    Shadows s₀ P P' (onHost (Machine.perform w) >>= k) (onHost w.planned >>= k) KeepsPace where
  grows := .bind .trans (perform_grows w) fun x s => by rw [(hk x s).1]; exact .refl s
  ends s d hsd hsound := by
    have hwrites : ((onHost (Machine.perform w) >>= k).on s).2.host.writes =
        s.host.writes ++ [w] := by
      obtain ⟨s', hs', -, hw, -⟩ := perform_effect (hsd.alike.willing hm) w
      rw [Act.on_bind, hs']
      cases s.host.machine.apply w with
      | error f => exact hw
      | ok x => exact (congrArg (·.host.writes) (hk x.1 s').1).trans hw
    have hw : w.Sound := by
      obtain ⟨ws, ps, hws, -⟩ := hsd.record
      exact hsound.last ⟨ws, by rw [hwrites, hws]⟩
    obtain ⟨s', d', hs', hd', hsd'⟩ := hsd.write hm hw hP
    obtain ⟨hdone, hgoes'⟩ := hk w.wellDone d'
    have hgoes := hw.goesOn_apply s.host.machine
    rw [Act.on_bind, Act.on_bind, hs', hd']
    revert hgoes
    cases ha : s.host.machine.apply w with
    | error f =>
      intro hgoes
      dsimp only
      rw [hdone]
      exact ⟨hsd', hgoes.trans (hgoes' (.inl rfl)).symm⟩
    | ok x =>
      intro _
      obtain ⟨hstill, hgoes⟩ := hk x.1 s'
      show Abreast s₀ P' ((k x.1).on s').2 ((k w.wellDone).on d').2 ∧
        KeepsPace ((k x.1).on s').1 ((k w.wellDone).on d').1
      rw [hstill, hdone]
      exact ⟨hsd', (hgoes (.inr ⟨_, _, hsd.alike.kin, ha⟩)).trans (hgoes' (.inl rfl)).symm⟩

/-- A write that is carried out, and what comes after it. -/
theorem write_bind {w : Write} {k l : w.Reply → Work Machine β} (hm : s₀.host.machine.Willing)
    (hP : ∀ p, P₁ p → P p ∧ p ∉ w.touches)
    (ha : ∀ m, s₀.host.machine.Alike P m → w.Sound → ∃ x, m.apply w = .ok x)
    (hk : ∀ x, Shadows s₀ P₁ P' (k x) (l w.wellDone) Q) :
    Shadows s₀ P P' (onHost (Machine.perform w) >>= k) (onHost w.planned >>= l) Q where
  grows := .bind .trans (perform_grows w) fun x => (hk x).grows
  ends s d hsd hsound := by
    obtain ⟨s₁, hs₁, -, hwrites, -⟩ := perform_effect (hsd.alike.willing hm) w
    have hgrown : s₁.Grows ((onHost (Machine.perform w) >>= k).on s).2 := by
      rw [Act.on_bind, hs₁]
      cases s.host.machine.apply w with
      | error f => exact .refl s₁
      | ok x => exact (hk x.1).grows s₁
    have hw : w.Sound := by
      obtain ⟨ws, ps, hws, -⟩ := hsd.record
      exact (hsound.of_grows hgrown).last ⟨ws, by rw [hwrites, hws]⟩
    obtain ⟨s', d', hs', hd', hsd'⟩ := hsd.write hm hw hP
    obtain ⟨x, hx⟩ := ha _ hsd.alike hw
    rw [hx] at hs'
    rw [Act.on_bind_of_ok hs'] at hsound ⊢
    rw [Act.on_bind_of_ok hd']
    exact (hk x.1).ends s' d' hsd' hsound

end Shadows

end TweakEngine
