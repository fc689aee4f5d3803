/-
# Steps that overwrite

On a machine that refuses no request, running an operation on the registry or a service, or
one that creates a file or directory or deletes a path without a backup, overwrites some spots
of the machine and leaves the others alone (`Engine.runSteps_overwrite`).  With a target user
the operations on the current user's hive are guarded: they go to the hive of that user, which
must be there (`Engine.gate`).  They stay below its key, and the only write that takes this key
away takes away all that lies below.
-/

import TweakEngine.Proofs.OperationWrites
import TweakEngine.Proofs.Overwriting
import TweakEngine.Proofs.Spots

namespace TweakEngine

open Session

/-- The overwriting of a write, or of a failure that comes before. -/
def Overwrite.issuing (guarded : Bool) (plan : Except Failure Write) : Overwrite Spot.Holding where
  sets x := match plan with
    | .ok w => w.sets x
    | .error _ => none
  guarded
  proceeds := goesOn plan

/-- What is left of a machine after an overwriting, and whether the run goes on. -/
structure Overwritten {α : Type} (g : Gate Spot.Holding) (a : Overwrite Spot.Holding) (m : Machine)
    (r : Except Failure α) (m' : Machine) : Prop where
  kin : m.Kin m'
  holding : m'.holding = a.after g m.holding
  continues : goesOn r = a.continues g m.holding

/-- A step that overwrites on all machines akin to one. -/
def Step.Overwrites (st : Step Machine) (g : Gate Spot.Holding) (m₀ : Machine)
    (a : Overwrite Spot.Holding) : Prop :=
  ∀ m, m₀.Kin m → Engine.Yields m st.run (Overwritten g a m)

variable {e : Engine Machine} {m m' m₀ : Machine} {slot : Slot} {g : Gate Spot.Holding}

/-- Carrying out a write that overwrites. -/
theorem Engine.Carries.overwritten {α : Type} {plan : Except Failure Write} {r : Except Failure α}
    {guarded : Bool} (h : Carries m plan r m') (hw : ∀ w, plan = .ok w → w.overwrites = true)
    (hact : (Overwrite.issuing guarded plan).acts g m.holding = true) :
    Overwritten g (.issuing guarded plan) m r m' := by
  have hgoes : (Overwrite.issuing guarded plan).continues g m.holding = goesOn plan := by
    rw [Overwrite.continues, hact]
    exact Bool.false_or _
  cases plan with
  | error f =>
    obtain ⟨hr, rfl⟩ := h
    refine ⟨.refl m', funext fun x => ?_, hr.trans hgoes.symm⟩
    rw [Overwrite.after_of_acts hact]
    exact (Option.getD_none ..).symm
  | ok w =>
    obtain ⟨hr, x, ha⟩ := h
    refine ⟨.apply ha, funext fun x => ?_, hr.trans hgoes.symm⟩
    rw [Overwrite.after_of_acts hact]
    exact Machine.holding_apply (hw w rfl) ha x

/-! ## Files -/

/-- The operations on files that overwrite. -/
inductive FileOperation.Overwrites (op : FileOperation) : Prop
  | createFile (h : op.action = .createFile)
  | createDirectory (h : op.action = .createDirectory)
  | delete (h : op.action = .delete) (hbackup : op.backup.truthy = false)

/-- The write of an operation on a file that overwrites, or the failure that comes before. -/
def FileOperation.write (op : FileOperation) : Except Failure Write :=
  match op.action with
  | .createFile => do
    discard (Machine.textOf op.path)
    return .writeFile op.path (if op.content.truthy then op.content else .text "")
      op.createDirectories
  | .createDirectory => do
    discard (Machine.textOf op.path)
    return .createDirectory op.path
  | _ => do
    discard (Machine.hasPath {} op.path)
    return .deletePath op.path

namespace Engine

/-- Where there is nothing, deleting changes nothing. -/
theorem holding_of_missing {path : Datum} (h : m.hasPath path = .ok false) (x : Spot) :
    m.holding x = ((Write.deletePath path).sets x).getD (m.holding x) := by
  cases path with
  | text s =>
    obtain ⟨hfile, hdir⟩ := Bool.or_eq_false_iff.mp (Except.ok.inj h)
    cases x with
    | file p =>
      rw [Write.sets, Machine.getD_ite]
      split
      · next e =>
        subst e
        exact Option.isNone_iff_eq_none.mp (Option.isSome_eq_false_iff.mp hfile)
      · rfl
    | directory p =>
      rw [Write.sets, Machine.getD_ite]
      split
      · next e => subst e; exact hdir
      · rfl
    | _ => rfl
  | _ => rfl

/-- What is there can be deleted. -/
theorem apply_deletePath {path : Datum} (h : m.hasPath path = .ok true) :
    ∃ m', m.apply (.deletePath path) = .ok ((), m') := by
  cases path with
  | text s =>
    have hthere : (Assoc.has s m.files || m.directories.contains s) = true := Except.ok.inj h
    simp only [Machine.apply, Machine.removePath, hthere, if_true]
    exact ⟨_, rfl⟩
  | _ => cases h

/-- Whether a path can be looked for does not depend on the machine. -/
theorem hasPath_anywhere {path : Datum} {r : Except Failure Bool} (h : m.hasPath path = r) :
    match r with
    | .error f => Machine.hasPath {} path = .error f
    | .ok _ => ∃ b, Machine.hasPath {} path = .ok b := by
  subst h
  cases path with
  | list | object => rfl
  | _ => exact ⟨_, rfl⟩

theorem runFile_overwrites (he : e.mutator = Machine.mutator) (hm : m.Willing)
    {op : FileOperation} (hop : op.Overwrites) :
    Yields m (e.runFile slot op) (Overwritten g (.issuing false op.write) m) := by
  unfold runFile FileOperation.write
  cases hop with
  | createFile ha | createDirectory ha =>
    rw [ha]
    refine (captureFile_write he hm (fun f hf => ?_) fun p hp => ?_).imp fun _ _ h =>
      h.overwritten (fun w hw => ?_) rfl
    · rw [Machine.apply, hf]
      rfl
    · exact ⟨(), _, by rw [Machine.apply, hp]; rfl⟩
    · cases ht : Machine.textOf op.path <;> rw [ht] at hw <;> cases hw
      rfl
  | delete ha hbackup =>
    rw [ha]
    refine captureFile_bind he hm (fun f hf => ?_) fun there kept hthere => ?_
    · have hplan : Machine.hasPath {} op.path = .error f := hasPath_anywhere hf
      rw [hplan]
      exact Carries.overwritten ⟨rfl, rfl⟩ (fun w hw => by cases hw) rfl
    obtain ⟨b, hplan⟩ : ∃ b, Machine.hasPath {} op.path = .ok b := hasPath_anywhere hthere
    dsimp only
    rw [hplan]
    cases there with
    | false =>
      exact .pure ⟨.refl m, funext fun x => holding_of_missing hthere x, rfl⟩
    | true =>
      obtain ⟨m', hdelete⟩ := apply_deletePath hthere
      rw [hbackup, Bool.false_and]
      simp only [Bool.not_true, Bool.false_eq_true, if_false]
      refine .write_bind he hm hdelete (.pure (Carries.overwritten ⟨rfl, (), hdelete⟩ ?_ rfl))
      intro w hw
      cases hw
      rfl

/-! ## The gate of an engine -/

/-- Whether a key lies below another one. -/
def Below (top k : Hive × String) : Prop := k.1 = top.1 ∧ (top.2 ++ "\\").toList <+: k.2.toList

theorem prefix_append (a b : String) : a.toList <+: (a ++ b).toList := by
  rw [String.toList_append]
  exact List.prefix_append _ _

theorem not_below_self (k : Hive × String) : ¬Below k k := by
  rintro ⟨-, h⟩
  have hlength := h.length_le
  rw [String.toList_append, List.length_append] at hlength
  have hone : "\\".toList.length = 1 := rfl
  omega

/-- What lies below a key is taken away with it. -/
theorem Below.atOrBelow {top k : Hive × String} {hive : Hive} {path : String} (h : Below top k)
    (htop : Machine.atOrBelow hive path top = true) : Machine.atOrBelow hive path k = true := by
  obtain ⟨hhive, hbelow⟩ := h
  obtain ⟨rfl, hpath⟩ := Machine.atOrBelow_iff.mp htop
  refine Machine.atOrBelow_iff.mpr ⟨hhive, .inr ?_⟩
  rcases hpath with rfl | hpath
  · exact hbelow
  · exact hpath.trans ((prefix_append _ _).trans hbelow)

/-- The key of the target user's hive. -/
def hiveKey (e : Engine Machine) : Hive × String := Machine.keyOf .users e.targetUser

theorem lowerAsciiText_append (a b : String) :
    Text.lowerAsciiText (a ++ b) = Text.lowerAsciiText a ++ Text.lowerAsciiText b := by
  simp [Text.lowerAsciiText]

/-- An operation that goes to the hive of the target user works below the key of this hive. -/
theorem below_hiveKey {hive : Hive} {path : Datum} (h : e.redirects hive = true)
    {k : Hive × String}
    (hk : Machine.atOrBelow (e.destination hive path).1
      (Machine.keyOf (e.destination hive path).1 (e.destination hive path).2).2 k = true) :
    Below e.hiveKey k := by
  obtain ⟨hhive, huser⟩ := Bool.and_eq_true_iff.mp h
  have hdest : e.destination hive path =
      (.users, .text (e.targetUser.display ++ "\\" ++ path.display)) := by
    rw [destination, if_neg]
    simp [of_decide_eq_true hhive, huser]
  rw [hdest] at hk
  have hname : (Machine.keyOf .users (.text (e.targetUser.display ++ "\\" ++ path.display))).2 =
      e.hiveKey.2 ++ "\\" ++ Text.lowerAsciiText path.display := by
    have hslash : Text.lowerAsciiText "\\" = "\\" := by decide +kernel
    show Text.lowerAsciiText (e.targetUser.display ++ "\\" ++ path.display) = _
    rw [lowerAsciiText_append, lowerAsciiText_append, hslash]
    rfl
  rw [hname] at hk
  obtain ⟨hk₁, hk₂⟩ := Machine.atOrBelow_iff.mp hk
  refine ⟨hk₁, ?_⟩
  rcases hk₂ with hk₂ | hk₂
  · rw [hk₂]
    exact prefix_append _ _
  · exact ((prefix_append _ _).trans (prefix_append _ _)).trans hk₂

/-- Operations on the current user's hive are carried out only while the hive of the target
user is there. -/
def gate (e : Engine Machine) : Gate Spot.Holding where
  spot := .key e.hiveKey
  opens := fun there : Bool => !e.targetUser.truthy || there
  behind x := ∃ k, x.key? = some k ∧ Below e.hiveKey k
  before := by
    rintro ⟨k, hk, hbelow⟩
    cases hk
    exact not_below_self _ hbelow

/-- A write that closes the gate overwrites all that is behind it. -/
theorem issuing_closes (guarded : Bool) (plan : Except Failure Write) (b : Bool)
    (hb : (Overwrite.issuing guarded plan).sets e.gate.spot = some b)
    (hclosed : e.gate.opens b = false) (x : Spot) (hx : e.gate.behind x) :
    (Overwrite.issuing guarded plan).sets x ≠ none := by
  obtain ⟨k, hk, hbelow⟩ := hx
  obtain rfl : b = false := (Bool.or_eq_false_iff.mp hclosed).2
  cases plan with
  | error f => cases hb
  | ok w =>
    obtain ⟨hive, path, htop, hsets⟩ := Machine.sets_of_deleted (w := w) hb
    exact hsets x k hk (hbelow.atOrBelow htop)

theorem issuing_respects (plan : Except Failure Write) :
    (Overwrite.issuing false plan).Respects e.gate where
  within := nofun
  closes := issuing_closes false plan

/-! ## Registry -/

/-- The overwriting of an operation on the registry. -/
def registryOverwrite (e : Engine Machine) (op : RegistryOperation) : Overwrite Spot.Holding :=
  let plan := op.writeAt (e.destination op.hive op.keyPath)
  if e.redirects op.hive then
    match Machine.folded e.targetUser with
    | .error f => .issuing false (.error f)
    | .ok _ => .issuing true plan
  else .issuing false plan

theorem place_writeAt {op : RegistryOperation} {place : Hive × Datum} {w : Write}
    (hw : op.writeAt place = .ok w) : w.place? = some place := by
  unfold RegistryOperation.writeAt at hw
  split at hw
  · obtain ⟨_, -, hw⟩ := ok_of_bind hw
    cases hw
    rfl
  · obtain ⟨_, -, hw⟩ := ok_of_bind hw
    cases hw
    rfl
  · obtain ⟨_, -, hw⟩ := ok_of_bind hw
    obtain ⟨v?, -, hw⟩ := ok_of_bind hw
    cases v? <;> cases hw
    rfl
  · obtain ⟨_, -, hw⟩ := ok_of_bind hw
    cases hw
    rfl

theorem overwrites_of_place {w : Write} {place : Hive × Datum} (h : w.place? = some place) :
    w.overwrites = true := by
  cases w with
  | movePath | copyPath => cases h
  | _ => rfl

theorem registryOverwrite_respects (e : Engine Machine) (op : RegistryOperation) :
    (e.registryOverwrite op).Respects e.gate := by
  unfold registryOverwrite
  cases hredirects : e.redirects op.hive with
  | false => exact issuing_respects _
  | true =>
    rw [if_pos rfl]
    split
    · exact issuing_respects _
    · refine ⟨fun _ x hx => ?_, issuing_closes true _⟩
      cases hplan : op.writeAt (e.destination op.hive op.keyPath) with
      | error f =>
        rw [hplan] at hx
        exact absurd rfl hx
      | ok w =>
        rw [hplan] at hx
        obtain ⟨k, hk, hat⟩ := Machine.within_place (place_writeAt hplan) hx
        exact ⟨k, hk, below_hiveKey hredirects hat⟩

theorem runRegistry_overwrites (he : e.mutator = Machine.mutator) (hm : m.Willing)
    (op : RegistryOperation) :
    Yields m (e.runRegistry slot op) (Overwritten e.gate (e.registryOverwrite op) m) := by
  have hoverwrites : ∀ w, op.writeAt (e.destination op.hive op.keyPath) = .ok w →
      w.overwrites = true := fun w hw => overwrites_of_place (place_writeAt hw)
  refine (runRegistry_carries he hm op).imp fun r m' h => ?_
  unfold placeOn at h
  unfold registryOverwrite
  cases hredirects : e.redirects op.hive with
  | false =>
    rw [hredirects] at h
    exact h.overwritten hoverwrites rfl
  | true =>
    rw [hredirects, if_pos rfl, Machine.answer_of_none (hm _)] at h
    rw [if_pos rfl]
    cases huser : Machine.folded e.targetUser with
    | error f =>
      rw [huser] at h
      exact Carries.overwritten h nofun rfl
    | ok user =>
      have hkey : (Hive.users, user) = e.hiveKey := by
        obtain ⟨text, htext, rfl⟩ := Machine.eq_text_of_folded huser
        rw [hiveKey, htext]
        rfl
      rw [huser, ok_bind, hkey, pure_bind] at h
      have hopen : e.gate.isOpen m.holding = Assoc.has e.hiveKey m.keys := by
        have htruthy : e.targetUser.truthy = true := (Bool.and_eq_true_iff.mp hredirects).2
        show (!e.targetUser.truthy || Assoc.has e.hiveKey m.keys) = _
        rw [htruthy]
        rfl
      cases hthere : Assoc.has e.hiveKey m.keys with
      | true =>
        rw [hthere, if_pos rfl] at h
        refine Carries.overwritten h hoverwrites ?_
        rw [Overwrite.acts, hopen, hthere, Bool.or_true]
      | false =>
        rw [hthere, if_neg Bool.false_ne_true] at h
        obtain ⟨hr, rfl⟩ := h
        have hrests : (Overwrite.issuing true (op.writeAt (e.destination op.hive op.keyPath))).acts
            e.gate m'.holding = false := by
          rw [Overwrite.acts, hopen, hthere]
          rfl
        refine ⟨.refl m', funext fun x => (Overwrite.after_of_rests hrests).symm, ?_⟩
        rw [Overwrite.continues, hrests]
        exact hr

/-! ## Services -/

/-- Which services there are is the same on akin machines. -/
theorem writeOn_kin (op : ServiceOperation) (h : m₀.Kin m) : op.writeOn m = op.writeOn m₀ := by
  have hhas : ∀ n, Assoc.has n m.services = Assoc.has n m₀.services := by
    intro n
    have hnames := congrArg Option.isSome (h.names n)
    rwa [Option.isSome_map, Option.isSome_map] at hnames
  unfold ServiceOperation.writeOn
  simp only [hhas]

theorem overwrites_serviceWrite {op : ServiceOperation} {w : Write} (hw : serviceWrite op = .ok w) :
    w.overwrites = true := by
  unfold serviceWrite at hw
  split at hw
  · cases hw; rfl
  · cases hw; rfl
  · cases hw; rfl
  · cases hw; rfl
  · split at hw <;> cases hw
    rfl

theorem runService_overwrites (he : e.mutator = Machine.mutator) (hm : m.Willing)
    (hkin : m₀.Kin m) (op : ServiceOperation) :
    Yields m (e.runService slot op) (Overwritten g (.issuing false (op.writeOn m₀)) m) := by
  rw [← writeOn_kin op hkin]
  refine (runService_carries he hm op).imp fun r m' h => h.overwritten (fun w hw => ?_) rfl
  obtain ⟨n, -, hw⟩ := ok_of_bind hw
  split at hw
  · exact overwrites_serviceWrite hw
  · cases hw

/-! ## Scripts -/

/-- An action that leaves machines akin to `m₀` as they are, with one result for all of them. -/
def Settled {α : Type} (m₀ : Machine) (a : Work Machine α) : Prop :=
  ∃ r, ∀ m, m₀.Kin m → Yields m a fun r' m' => r' = r ∧ m' = m

namespace Settled

variable {α β : Type}

theorem pure (x : α) : Settled m₀ (Pure.pure x : Work Machine α) :=
  ⟨.ok x, fun _ _ => .pure ⟨rfl, rfl⟩⟩

theorem throw_bind (f : Failure) (k : β → Work Machine α) :
    Settled m₀ (MonadExcept.throw f >>= k) := ⟨.error f, fun _ _ => .throw_bind ⟨rfl, rfl⟩⟩

theorem result (r : Except Failure α) : Settled m₀ (Act.result r : Work Machine α) :=
  ⟨r, fun _ _ _ hs => ⟨rfl, hs⟩⟩

theorem say (level : Level) (speaker text : String) :
    Settled m₀ (Session.say level speaker text : Work Machine Unit) :=
  ⟨.ok (), fun _ _ _ hs => ⟨rfl, hs⟩⟩

theorem bind {a : Work Machine β} {k : β → Work Machine α} (ha : Settled m₀ a)
    (hk : ∀ x, Settled m₀ (k x)) : Settled m₀ (a >>= k) := by
  obtain ⟨r, ha⟩ := ha
  cases r with
  | error f =>
    refine ⟨.error f, fun m hm => .bind ((ha m hm).imp fun r' m' ⟨hr, hm'⟩ => ?_)⟩
    subst hr hm'
    exact ⟨fun f' hf => ⟨by cases hf; rfl, rfl⟩, nofun⟩
  | ok x =>
    obtain ⟨r, hk⟩ := hk x
    refine ⟨r, fun m hm => .bind ((ha m hm).imp fun r' m' ⟨hr, hm'⟩ => ?_)⟩
    subst hr hm'
    refine ⟨nofun, fun y hy => ?_⟩
    cases hy
    exact hk m' hm

/-- Scripts answer what the settings of the machine say. -/
theorem runScript (he : e.mutator = Machine.mutator) (h₀ : m₀.Willing) (script timeout : Datum)
    (elevated : Bool) : Settled m₀ (e.write (.runScript script timeout elevated)) := by
  refine ⟨.ok (m₀.scriptOf script).outcome, fun m hm => ?_⟩
  have hscripts : m.scriptOf script = m₀.scriptOf script := by
    have : m.scripts = m₀.scripts := congrArg (·.2.2) hm.settings
    unfold Machine.scriptOf
    rw [this]
  refine .write he (h₀.of_settings hm.settings) nofun fun x m' hx => ?_
  cases hx
  exact ⟨by rw [hscripts], rfl⟩

theorem runText (he : e.mutator = Machine.mutator) (h₀ : m₀.Willing) (op : ScriptOperation)
    (script : Datum) : Settled m₀ (e.runText op script) := by
  unfold Engine.runText
  refine (result _).bind fun text => ?_
  dsimp only
  split
  · exact throw_bind _ _
  split
  on_goal 1 => refine (say _ _ _).bind fun _ => ?_
  all_goals
    refine (runScript he h₀ _ _ _).bind fun outcome => ?_
    split
    · exact throw_bind _ _
    split
    · refine (result _).bind fun stderr => ?_
      split
      · exact (pure _).bind fun _ => throw_bind _ _
      · exact (result _).bind fun _ => throw_bind _ _
    · exact pure _

end Settled

/-- A settled step overwrites nothing. -/
theorem Settled.overwrites {run : Work Machine (Option String)} (h : Settled m₀ run) :
    ∃ a : Overwrite Spot.Holding, a.Respects g ∧
      ∀ m, m₀.Kin m → Yields m run (Overwritten g a m) := by
  obtain ⟨r, h⟩ := h
  refine ⟨{ sets := fun _ => none, proceeds := goesOn r }, ⟨nofun, nofun⟩, fun m hm =>
    (h m hm).imp fun r' m' ⟨hr, hm'⟩ => ?_⟩
  subst hr hm'
  exact ⟨.refl m', rfl, rfl⟩

/-! ## The steps of a tweak -/

/-- Every step of a tweak overwrites. -/
theorem runSteps_overwrite (he : e.mutator = Machine.mutator) (h₀ : m₀.Willing) {t : Tweak}
    (hfiles : ∀ op ∈ t.operations.files, op.Overwrites) {steps : List (Step Machine)}
    (hsteps : e.runSteps t.id .apply t.operations = .ok steps) {st : Step Machine}
    (hst : st ∈ steps) :
    ∃ a : Overwrite Spot.Holding, a.Respects e.gate ∧ st.Overwrites e.gate m₀ a := by
  have hwilling : ∀ m, m₀.Kin m → m.Willing := fun m hm => h₀.of_settings hm.settings
  refine forall_runSteps (P := fun run => ∃ a : Overwrite Spot.Holding, a.Respects e.gate ∧
    ∀ m, m₀.Kin m → Yields m run (Overwritten e.gate a m)) hsteps ?_ ?_ ?_ ?_ st hst
  · exact fun slot op _ => ⟨e.registryOverwrite op, registryOverwrite_respects e op,
      fun m hm => runRegistry_overwrites he (hwilling m hm) op⟩
  · exact fun slot op _ => ⟨.issuing false (op.writeOn m₀), issuing_respects _,
      fun m hm => runService_overwrites he (hwilling m hm) hm op⟩
  · exact fun op _ => Settled.overwrites (.runText he h₀ op op.script)
  · exact fun slot op hop => ⟨.issuing false op.write, issuing_respects _,
      fun m hm => runFile_overwrites he (hwilling m hm) (hfiles op hop)⟩

end Engine
end TweakEngine
