/-
# Dry runs

A dry run plans, in order and one for one, what a run of the same tweak from the same system
writes (`Engine.dryRun_plans`), and leaves the system as it is.  Each operation takes the same
decisions in both runs (`Shadows`, one lemma for each sort of operation), although the run
reads what its own earlier writes have left.  Only a deletion looks at something that earlier
operations of the tweak may have changed, namely whether its path is taken; so no deletion may
name a path that an earlier file operation uses.
-/

import TweakEngine.Proofs.Abreast

namespace TweakEngine

open Session

/-- The paths that a file operation uses: its own, the target of a transfer, and the backup of
a deletion that keeps one. -/
def FileOperation.uses (op : FileOperation) : List Datum :=
  op.path :: match op.action with
    | .rename | .copy => [op.target]
    | .delete => if op.backup.truthy then [op.backup] else []
    | _ => []

/-- The paths that are to be deleted. -/
def FileOperation.Doomed (ops : List FileOperation) (p : Datum) : Prop :=
  ∃ op ∈ ops, op.action = .delete ∧ op.path = p

namespace Engine

/-- An engine that plans what another one does. -/
structure PlansFor (e' e : Engine Machine) : Prop where
  mutator : e.mutator = Machine.mutator
  planner : e'.mutator = Machine.mutator.dryRun
  user : e.targetUser.truthy = false
  user' : e'.targetUser.truthy = false

variable {e e' : Engine Machine} {s₀ : Session Machine} {P P' : Datum → Prop} {slot : Slot}

namespace PlansFor

theorem readValue (h : e'.PlansFor e) :
    e.mutator.readValue = Machine.readValue ∧ e'.mutator.readValue = Machine.readValue := by
  rw [h.mutator, h.planner]; exact ⟨rfl, rfl⟩

theorem keyExists (h : e'.PlansFor e) :
    e.mutator.keyExists = Machine.keyExists ∧ e'.mutator.keyExists = Machine.keyExists := by
  rw [h.mutator, h.planner]; exact ⟨rfl, rfl⟩

theorem queryService (h : e'.PlansFor e) :
    e.mutator.queryService = Machine.queryService ∧
      e'.mutator.queryService = Machine.queryService := by
  rw [h.mutator, h.planner]; exact ⟨rfl, rfl⟩

theorem pathExists (h : e'.PlansFor e) :
    e.mutator.pathExists = Machine.pathExists ∧ e'.mutator.pathExists = Machine.pathExists := by
  rw [h.mutator, h.planner]; exact ⟨rfl, rfl⟩

theorem readText (h : e'.PlansFor e) :
    e.mutator.readText = Machine.readText ∧ e'.mutator.readText = Machine.readText := by
  rw [h.mutator, h.planner]; exact ⟨rfl, rfl⟩

theorem write (h : e'.PlansFor e) (w : Write) :
    e.write w = onHost (Machine.perform w) ∧ e'.write w = onHost w.planned := by
  rw [Engine.write, Engine.write, h.mutator, h.planner]; exact ⟨rfl, rfl⟩

theorem resolve (h : e'.PlansFor e) (hive : Hive) (path : Datum) :
    onHost (e.resolve hive path) = (pure (hive, path) : Work Machine _) ∧
      onHost (e'.resolve hive path) = (pure (hive, path) : Work Machine _) := by
  have hpure : (onHost (pure (hive, path)) : Work Machine _) = pure (hive, path) := rfl
  simp [Engine.resolve, h.user, h.user', hpure]

end PlansFor

/-! ## The registry and services -/

/-- What reads the stored form of some texts is read alike. -/
theorem both_of_eq {α β : Type} {x : Except Failure α} {f g : α → Except Failure β}
    {R : β → β → Prop} (h : ∀ a, Both R (f a) (g a)) : Both R (x >>= f) (x >>= g) := by
  cases x with
  | error f => exact rfl
  | ok a => exact h a

theorem registryPart_apart (c : Captures RegistryCapture) (s : Session Machine) :
    ledger (registryPart.set c s) = ledger s ∧
      (registryPart.set c s).memory.files = s.memory.files := ⟨rfl, rfl⟩

theorem servicesPart_apart (c : Captures ServiceCapture) (s : Session Machine) :
    ledger (servicesPart.set c s) = ledger s ∧
      (servicesPart.set c s).memory.files = s.memory.files := ⟨rfl, rfl⟩

/-- The writes of services touch no path. -/
theorem touches_serviceWrite {op : ServiceOperation} {w : Write} (hw : serviceWrite op = .ok w) :
    w.touches = [] := by
  unfold serviceWrite at hw
  cases ha : op.action <;> rw [ha] at hw
  case setStartupType => cases hs : op.startup <;> rw [hs] at hw <;> cases hw; rfl
  all_goals
    cases hw
    rfl

variable (he : e'.PlansFor e) (hm : s₀.host.machine.Willing)

include he hm

theorem runKey_shadows (hive : Hive) (path : Datum) (create : Bool) :
    Shadows s₀ P P (e.runKey slot hive path create) (e'.runKey slot hive path create)
      KeepsPace := by
  unfold runKey
  rw [he.keyExists.1, he.keyExists.2, (he.write _).1, (he.write _).2, (he.write _).1,
    (he.write _).2]
  refine .ask_bind (R := fun _ _ => True) hm (fun m _ => both_of_eq fun p => trivial)
    (fun _ => trivial) (fun _ => id) (fun _ => rfl) fun existed existed' _ => ?_
  simp only [Act.discard_bind]
  refine .capture_bind registryPart_apart (fun _ => id) (fun _ => rfl) fun _ _ => ?_
  cases create with
  | true =>
    simp only [if_true]
    exact .write_last hm (fun p hp => ⟨hp, List.not_mem_nil⟩) fun _ => .pure _
  | false =>
    simp only [Bool.false_eq_true, if_false]
    exact .write_last hm (fun p hp => ⟨hp, List.not_mem_nil⟩) fun x => by
      cases x <;> exact .pure _

theorem captureValue_bind_shadows {α : Type} {hive : Hive} {path name : Datum}
    {k l : PUnit → Work Machine α} {Q : Except Failure α → Except Failure α → Prop}
    (hQ : ∀ f, Q (.error f) (.error f)) (hk : Shadows s₀ P P (k ()) (l ()) Q) :
    Shadows s₀ P P (e.captureValue slot hive path name >>= k)
      (e'.captureValue slot hive path name >>= l) Q := by
  unfold captureValue
  rw [he.readValue.1, he.readValue.2, bind_assoc, bind_assoc]
  refine .ask_bind (R := fun _ _ => True) hm
    (fun m _ => both_of_eq fun p => both_of_eq fun n => trivial)
    (fun _ => trivial) (fun _ => id) hQ fun reading reading' _ => ?_
  simp only [Act.discard_bind]
  exact .capture_bind registryPart_apart (fun _ => id) hQ fun _ _ => hk

theorem runRegistry_shadows (op : RegistryOperation) :
    Shadows s₀ P P (e.runRegistry slot op) (e'.runRegistry slot op) KeepsPace := by
  unfold runRegistry
  rw [(he.resolve _ _).1, (he.resolve _ _).2, pure_bind, pure_bind]
  dsimp only
  cases op.action with
  | createKey => exact runKey_shadows he hm op.hive op.keyPath true
  | deleteKey => exact runKey_shadows he hm op.hive op.keyPath false
  | setValue =>
    refine captureValue_bind_shadows he hm (fun _ => rfl) ?_
    refine .result_bind (fun _ => id) (fun _ => rfl) fun value? _ => ?_
    cases value? with
    | none => exact .throw (fun _ => id) rfl
    | some value =>
      dsimp only
      rw [(he.write _).1, (he.write _).2]
      exact .write_last hm (fun p hp => ⟨hp, List.not_mem_nil⟩) fun _ => .pure _
  | deleteValue =>
    refine captureValue_bind_shadows he hm (fun _ => rfl) ?_
    rw [(he.write _).1, (he.write _).2]
    exact .write_last hm (fun p hp => ⟨hp, List.not_mem_nil⟩) fun x => by
      cases x <;> exact .pure _

theorem runService_shadows (op : ServiceOperation) :
    Shadows s₀ P P (e.runService slot op) (e'.runService slot op) KeepsPace := by
  unfold runService
  rw [he.queryService.1, he.queryService.2]
  refine .ask_bind (R := fun x y => x.found = y.found) hm
    (fun m hm => both_of_eq fun n => ?_) (fun _ => rfl) (fun _ => id) (fun _ => rfl)
    fun snapshot snapshot' hfound => ?_
  · show (m.snapshot op.service n).found = (s₀.host.machine.snapshot op.service n).found
    have hhas := hm.kin.has_service n
    unfold Machine.snapshot
    unfold Assoc.has at hhas
    revert hhas
    cases Assoc.get? n m.services <;> cases Assoc.get? n s₀.host.machine.services <;> intro hhas
    · rfl
    · cases hhas
    · cases hhas
    · rfl
  · rw [hfound]
    dsimp only
    cases snapshot'.found with
    | false => exact .throw_bind (fun _ => id) rfl
    | true =>
      simp only [Bool.not_true, Bool.false_eq_true, if_false]
      simp only [Act.discard_bind]
      refine .capture_bind servicesPart_apart (fun _ => id) (fun _ => rfl) fun _ _ => ?_
      refine .result_bind (fun _ => id) (fun _ => rfl) fun w hw => ?_
      rw [(he.write _).1, (he.write _).2]
      exact .write_last hm (fun p hp => ⟨hp, by rw [touches_serviceWrite hw]; exact List.not_mem_nil⟩)
        fun _ => .pure _

/-! ## Scripts -/

omit he hm in
/-- Whatever a script answers is a text. -/
theorem isSome_of_mayReply (ho : s₀.host.machine.Outspoken) {script timeout : Datum}
    {elevated : Bool} {x : ScriptOutcome}
    (hx : (Write.runScript script timeout elevated).MayReply s₀.host.machine x) :
    x.stdout.isSome ∧ x.stderr.isSome := by
  rcases hx with rfl | ⟨m, m', hkin, ha⟩
  · exact ⟨rfl, rfl⟩
  · have hscripts : m.scripts = s₀.host.machine.scripts := congrArg (·.2.2) hkin.settings
    cases ha
    unfold Machine.scriptOf
    rw [hscripts]
    cases script with
    | text text =>
      dsimp only
      cases ht : Assoc.get? text s₀.host.machine.scripts with
      | none => exact ⟨rfl, rfl⟩
      | some script => exact ho text script ht
    | _ => exact ⟨rfl, rfl⟩

omit he hm in
theorem trimmedOutput_tacit {c : Prop} {text : Option String} (ht : c → text.isSome) :
    Tacit c (Act.result (runText.trimmedOutput text) : Work Machine String) :=
  .result fun hc => by
    obtain ⟨t, rfl⟩ := Option.isSome_iff_exists.mp (ht hc)
    rfl

theorem runText_shadows (ho : s₀.host.machine.Outspoken) (op : ScriptOperation) (script : Datum) :
    Shadows s₀ P P (e.runText op script) (e'.runText op script) KeepsPace := by
  unfold runText
  rw [(he.write _).1, (he.write _).2]
  refine .result_bind (fun _ => id) (fun _ => rfl) fun text _ => ?_
  dsimp only
  split
  · exact .throw_bind (fun _ => id) rfl
  split
  on_goal 1 => refine .say_bind ?_
  all_goals
    refine .write_last hm (fun p hp => ⟨hp, List.not_mem_nil⟩) fun x => ?_
    split
    · exact .throw_bind rfl
    split
    · refine (trimmedOutput_tacit fun hx => (isSome_of_mayReply ho hx).2).bind fun stderr => ?_
      split
      · exact (Tacit.pure _).bind fun _ => .throw_bind rfl
      · exact (trimmedOutput_tacit fun hx => (isSome_of_mayReply ho hx).1).bind fun _ =>
          .throw_bind rfl
    · exact .pure _

/-! ## Files -/

/-- Reading a file fails in neither run. -/
theorem readText_shadows (path : Datum) (b b' : Bool) :
    Shadows s₀ P P (if b then onHost (e.mutator.readText path) else pure .null)
      (if b' then onHost (e'.mutator.readText path) else pure .null) (Both fun _ _ => True) := by
  have hread : ∀ (b : Bool) (s : Session Machine), s.host.machine.Willing → ∃ d,
      (if b then onHost (Machine.readText path) else pure .null : Work Machine Datum).on s =
        (.ok d, s) := by
    intro b s hs
    cases b with
    | true => exact ⟨_, ask_on (s := s) hs (.readText path) fun m => .ok (m.fileText path)⟩
    | false => exact ⟨_, rfl⟩
  have hstill : ∀ (b : Bool) (s : Session Machine),
      ((if b then onHost (Machine.readText path) else pure .null : Work Machine Datum).on s).2 = s := by
    intro b s
    cases b with
    | true => exact congrArg Prod.snd (ask_answers (.readText path) fun m => .ok (m.fileText path))
    | false => rfl
  rw [he.readText.1, he.readText.2]
  refine .of_still (hstill b) (hstill b') (fun _ => id) fun s d hsd => ?_
  obtain ⟨x, hx⟩ := hread b s (hsd.alike.willing hm)
  obtain ⟨y, hy⟩ := hread b' d (hsd.still ▸ hm)
  rw [hx, hy]
  exact trivial

omit he hm in
/-- Capturing a file: whether it is there, its text, and the capture. -/
theorem captureFile_eq (e : Engine Machine) (op : FileOperation) : e.captureFile slot op = (do
    let existed ← onHost (e.mutator.pathExists op.path)
    let content ← (if existed && op.action ≠ .createDirectory
      then onHost (e.mutator.readText op.path) else pure .null : Work Machine Datum)
    let kept ← capture filesPart slot ⟨existed, content⟩
    return (existed, kept)) := by
  unfold captureFile
  refine bind_congr fun existed => ?_
  dsimp only
  split <;> rfl

/-- Capturing a file goes alike when its path is taken alike. -/
theorem captureFile_shadows (op : FileOperation) :
    Shadows s₀ P P (e.captureFile slot op) (e'.captureFile slot op)
      (Both fun x y => P op.path → x = y ∧ s₀.host.machine.hasPath op.path = .ok y.1) := by
  have hrest : ∀ existed existed' : Bool, Shadows s₀ P P
      ((if existed && op.action ≠ .createDirectory
          then onHost (e.mutator.readText op.path) else pure .null : Work Machine Datum) >>=
        fun content => capture filesPart slot ⟨existed, content⟩ >>= fun kept =>
          pure (existed, kept))
      ((if existed' && op.action ≠ .createDirectory
          then onHost (e'.mutator.readText op.path) else pure .null : Work Machine Datum) >>=
        fun content => capture filesPart slot ⟨existed', content⟩ >>= fun kept =>
          pure (existed', kept))
      (Both fun x y => x.1 = existed ∧ y.1 = existed' ∧ x.2 = y.2) := by
    intro existed existed'
    refine (readText_shadows he hm op.path _ _).bind (fun _ => trivial) (fun _ => id)
      (fun _ => rfl) fun _ _ _ => ?_
    refine Shadows.captureFiles.bind (fun _ => rfl) (fun _ => id) (fun _ => rfl) fun _ _ h => ?_
    exact .pure (fun _ => id) (And.intro rfl (And.intro rfl h))
  rw [captureFile_eq, captureFile_eq, he.pathExists.1, he.pathExists.2]
  refine (Shadows.ask (R := fun x y => P op.path → x = y ∧ s₀.host.machine.hasPath op.path = .ok y)
    hm fun m hm => ?_).bind_of (fun _ => id) (fun _ => rfl) (fun x => (hrest x x).grows)
      fun x y hxy => (hrest x y).imp fun x' y' h hP => ?_
  · have hsame := hm.paths op.path
    revert hsame
    cases op.path with
    | text p => exact fun hsame hP => ⟨Except.ok.inj (hsame hP), rfl⟩
    | list | object => exact fun _ => rfl
    | _ => exact fun _ _ => ⟨rfl, rfl⟩
  · obtain ⟨hx, hy, hkept⟩ := h
    obtain ⟨rfl, hpath⟩ := hxy hP
    exact ⟨Prod.ext (hx.trans hy.symm) hkept, hy ▸ hpath⟩

theorem runTransfer_shadows (op : FileOperation) {w : Write}
    (hP : ∀ p, P' p → P p ∧ p ∉ w.touches) :
    Shadows s₀ P P' (e.runTransfer slot op w) (e'.runTransfer slot op w) KeepsPace := by
  have hmono : ∀ p, P' p → P p := fun p hp => (hP p hp).1
  unfold runTransfer
  rw [he.pathExists.1, he.pathExists.2, (he.write _).1, (he.write _).2]
  dsimp only
  split
  · exact .throw_bind hmono rfl
  · refine .ask_bind (R := fun _ _ => True) hm (fun m hm => ?_) (fun _ => trivial) hmono
      (fun _ => rfl) fun existed existed' _ => ?_
    · cases op.target with
      | list | object => exact rfl
      | _ => exact trivial
    · simp only [Act.discard_bind]
      exact Shadows.captureFiles.bind (fun _ => rfl) hmono (fun _ => rfl) fun _ _ _ =>
        .write_last hm hP fun _ => .pure _

omit he hm in
/-- What is there can be copied, if the copy has a path. -/
theorem apply_copyPath {m : Machine} {source target : Datum} (h : m.hasPath source = .ok true)
    (hw : (Write.copyPath source target).Sound) : ∃ x, m.apply (.copyPath source target) = .ok x := by
  obtain ⟨⟨m₁, x, m₂, h₁⟩, -⟩ := hw
  obtain ⟨m₃, h₁, -⟩ := ok_of_bind h₁
  obtain ⟨t, ht, -⟩ := ok_of_bind h₁
  cases source with
  | text s =>
    have hthere : (Assoc.has s m.files || m.directories.contains s) = true := Except.ok.inj h
    simp only [Machine.apply, Machine.duplicate, ht, ok_bind]
    cases hs : Assoc.get? s m.files with
    | some content => exact ⟨_, rfl⟩
    | none =>
      rw [Assoc.has, hs, Option.isSome_none, Bool.false_or] at hthere
      simp only [hthere, if_true]
      exact ⟨_, rfl⟩
  | _ => cases h

theorem runFile_shadows {op : FileOperation} (hop : op.action = .delete → P op.path)
    (hP : ∀ p, P' p → P p ∧ p ∉ op.uses) :
    Shadows s₀ P P' (e.runFile slot op) (e'.runFile slot op) KeepsPace := by
  have hmono : ∀ p, P' p → P p := fun p hp => (hP p hp).1
  have hpath : ∀ p, P' p → P p ∧ p ∉ [op.path] := fun p hp =>
    ⟨(hP p hp).1, fun h => (hP p hp).2 (List.mem_singleton.mp h ▸ List.mem_cons_self)⟩
  unfold runFile
  cases ha : op.action with
  | setAttributes | takeOwnership => exact .throw hmono rfl
  | rename =>
    refine runTransfer_shadows he hm op fun p hp => ⟨(hP p hp).1, fun h => (hP p hp).2 ?_⟩
    rw [FileOperation.uses, ha]
    exact h
  | copy =>
    refine runTransfer_shadows he hm op fun p hp => ⟨(hP p hp).1, fun h => (hP p hp).2 ?_⟩
    rw [FileOperation.uses, ha]
    exact List.mem_cons_of_mem _ h
  | createFile =>
    dsimp only
    rw [Act.discard_bind, Act.discard_bind, (he.write _).1, (he.write _).2]
    exact ((captureFile_shadows he hm op).imp fun _ _ _ => trivial).bind (R := fun _ _ => True)
      (fun _ => trivial) hmono (fun _ => rfl) fun _ _ _ => .write_last hm hpath fun _ => .pure _
  | createDirectory =>
    dsimp only
    rw [Act.discard_bind, Act.discard_bind, (he.write _).1, (he.write _).2]
    exact ((captureFile_shadows he hm op).imp fun _ _ _ => trivial).bind (R := fun _ _ => True)
      (fun _ => trivial) hmono (fun _ => rfl) fun _ _ _ => .write_last hm hpath fun _ => .pure _
  | delete =>
    dsimp only
    rw [(he.write _).1, (he.write _).2, (he.write _).1, (he.write _).2]
    have hdelete : ∀ {P₁}, (∀ p, P' p → P₁ p) → Shadows s₀ P₁ P'
        (do
          let _ ← onHost (Machine.perform (.deletePath op.path))
          return (none : Option String))
        (do
          let _ ← onHost (Write.deletePath op.path).planned
          return none) KeepsPace := fun hP₁ =>
      .write_last hm (fun p hp => ⟨hP₁ p hp, (hpath p hp).2⟩) fun _ => .pure _
    refine (captureFile_shadows he hm op).bind_of hmono (fun _ => rfl) (fun x => ?_)
      fun x y hxy => ?_
    · split
      · exact Grows.refl
      split
      · exact .bind .trans (perform_grows _) fun _ => (hdelete hmono).grows
      · exact (hdelete hmono).grows
    · obtain ⟨rfl, hthere⟩ := hxy (hop ha)
      obtain ⟨existed, kept⟩ := x
      cases existed with
      | false => exact .pure hmono rfl
      | true =>
        simp only [Bool.not_true, Bool.false_eq_true, if_false]
        split
        · next hb =>
          have hbackup : ∀ p, P' p → P p ∧ p ∉ [op.backup] := fun p hp =>
            ⟨(hP p hp).1, fun h => (hP p hp).2 (List.mem_cons_of_mem _ (by
              rw [ha]
              dsimp only
              rwa [if_pos (Bool.and_eq_true_iff.mp hb).1]))⟩
          exact .write_bind hm hbackup
            (fun m hm hw => apply_copyPath ((hm.paths _ (hop ha)).trans hthere) hw) fun _ =>
              hdelete fun _ => id
        · exact hdelete hmono

/-! ## Runs -/

omit he hm in
/-- Running a step does what the step does, and tells whether the run goes on. -/
theorem runStep_ledger (st : Step Machine) (r : Result) (s : Session Machine) :
    ∃ r' f? s', (runStep st r).on s = (.ok (r', f?), s') ∧
      ledger s' = ledger (st.run.on s).2 ∧ s'.memory = (st.run.on s).2.memory ∧
      f?.isNone = goesOn (st.run.on s).1 := by
  obtain ⟨r', f?, s', hrun, hcore, hwrites, hplans, -, hnone, -⟩ := runStep_on st r s
  obtain ⟨hmachine, -, hmemory, -⟩ := Core.mk.inj hcore
  exact ⟨r', f?, s', hrun, Prod.ext hmachine (Prod.ext hwrites hplans), hmemory, hnone⟩

omit he hm in
/-- A step and its counterpart record different outcomes, and go on or end together. -/
theorem runStep_shadows {st st' : Step Machine} (h : Shadows s₀ P P' st.run st'.run KeepsPace)
    (r r' : Result) : Shadows s₀ P P' (runStep st r) (runStep st' r')
      (Both fun x y => x.2.isNone = y.2.isNone) where
  grows s := by
    obtain ⟨r₁, f?, s₁, hs₁, hledger, -, -⟩ := runStep_ledger st r s
    have hwrites : s₁.host.writes = (st.run.on s).2.host.writes := congrArg (·.2.1) hledger
    rw [hs₁, Grows, hwrites]
    exact h.grows s
  ends s d hsd hsound := by
    obtain ⟨r₁, f?, s₁, hs₁, hledger, hmemory, hnone⟩ := runStep_ledger st r s
    obtain ⟨r₂, g?, d₁, hd₁, hledger', hmemory', hnone'⟩ := runStep_ledger st' r' d
    rw [hs₁] at hsound ⊢
    rw [hd₁]
    obtain ⟨hsd', hgoes⟩ := h.ends s d hsd (hsound.of_ledger rfl hledger.symm)
    refine ⟨hsd'.of_eq hledger hledger' fun slot => ?_, hnone.trans (hgoes.trans hnone'.symm)⟩
    rw [hmemory, hmemory']
    exact hsd'.slots slot

/-- Steps and their counterparts, one by one; `P` says which paths count before them. -/
inductive StepsShadow (s₀ : Session Machine) :
    (Datum → Prop) → List (Step Machine) → List (Step Machine) → Prop
  | nil (P : Datum → Prop) : StepsShadow s₀ P [] []
  | cons {P P' : Datum → Prop} {st st' : Step Machine} {steps steps' : List (Step Machine)}
      (head : Shadows s₀ P P' st.run st'.run KeepsPace) (tail : StepsShadow s₀ P' steps steps') :
      StepsShadow s₀ P (st :: steps) (st' :: steps')

omit he hm in
/-- The steps go on when one does not break off, and else the failure is reported. -/
theorem execute_cons (st : Step Machine) (steps : List (Step Machine)) (r : Result) :
    execute (fun _ => false) (st :: steps) r = runStep st r >>= fun x => match x with
      | (r, none) => execute (fun _ => false) steps r
      | (r, some f) => breakRun r f := rfl

omit he hm in
/-- **A run and its dry run** stay side by side. -/
theorem execute_shadows {steps steps' : List (Step Machine)} (h : StepsShadow s₀ P steps steps')
    (r r' : Result) : Shadows s₀ P (fun _ => False) (execute (fun _ => false) steps r)
      (execute (fun _ => false) steps' r') (Both fun _ _ => True) := by
  induction h generalizing r r' with
  | nil P => exact .pure (fun _ => False.elim) trivial
  | cons head tail ih =>
    rw [execute_cons, execute_cons]
    refine (runStep_shadows head r r').bind (fun _ => rfl) (fun _ => False.elim) (fun _ => rfl)
      fun x y hxy => ?_
    obtain ⟨r₁, f?⟩ := x
    obtain ⟨r₂, g?⟩ := y
    cases f? with
    | none => cases g? with
      | none => exact ih r₁ r₂
      | some g => cases hxy
    | some f => cases g? with
      | none => cases hxy
      | some g =>
        exact .of_kept (fun _ => ⟨rfl, rfl⟩) (fun _ => ⟨rfl, rfl⟩) (fun _ => False.elim)
          fun _ _ _ => trivial

/-! ## Steps of a tweak -/

omit he hm in
/-- Operations that leave the paths alone that count, before other steps. -/
theorem stepsFor_shadows {ω : Type} {tweakId : String} {side : Side} (ops : List ω)
    {step step' : Slot → ω → Step Machine}
    (h : ∀ slot op, Shadows s₀ P P (step slot op).run (step' slot op).run KeepsPace)
    {more more' : List (Step Machine)} (hmore : StepsShadow s₀ P more more') :
    StepsShadow s₀ P (stepsFor tweakId side ops step ++ more)
      (stepsFor tweakId side ops step' ++ more') := by
  unfold stepsFor
  induction ops.zipIdx with
  | nil => exact hmore
  | cons x xs ih => exact .cons (h _ x.1) ih

/-- Scripts, before other steps.  What cannot be described cannot be described in either run. -/
theorem scripts_shadow (ho : s₀.host.machine.Outspoken) {more more' : List (Step Machine)}
    (hmore : StepsShadow s₀ P more more') : ∀ scripts : List ScriptOperation,
      (∃ f, (scripts.mapM fun op => do return (⟨← op.describe, e.runScript op⟩ : Step Machine)) =
          .error f ∧
        (scripts.mapM fun op => do return (⟨← op.describe, e'.runScript op⟩ : Step Machine)) =
          .error f) ∨
      ∃ steps steps',
        (scripts.mapM fun op => do return (⟨← op.describe, e.runScript op⟩ : Step Machine)) =
          .ok steps ∧
        (scripts.mapM fun op => do return (⟨← op.describe, e'.runScript op⟩ : Step Machine)) =
          .ok steps' ∧
        StepsShadow s₀ P (steps ++ more) (steps' ++ more')
  | [] => .inr ⟨[], [], rfl, rfl, hmore⟩
  | op :: scripts => by
    rw [List.mapM_cons, List.mapM_cons]
    cases op.describe with
    | error f => exact .inl ⟨f, rfl, rfl⟩
    | ok label =>
      rcases scripts_shadow ho hmore scripts with ⟨f, hf, hf'⟩ | ⟨steps, steps', hs, hs', hsteps⟩
      · exact .inl ⟨f, by rw [hf]; rfl, by rw [hf']; rfl⟩
      · refine .inr ⟨⟨label, e.runScript op⟩ :: steps, ⟨label, e'.runScript op⟩ :: steps',
          by rw [hs]; rfl, by rw [hs']; rfl, ?_⟩
        exact .cons (runText_shadows he hm ho op op.script) hsteps

/-- File operations of which none deletes a path that an earlier one uses. -/
theorem files_shadow (tweakId : String) (side : Side) : ∀ (ops : List FileOperation) (n : Nat),
    (ops.Pairwise fun a b => b.action = .delete → b.path ∉ a.uses) →
    StepsShadow s₀ (FileOperation.Doomed ops)
      ((ops.zipIdx n).map fun (op, i) => ⟨op.describe, e.runFile ⟨tweakId, side, i⟩ op⟩)
      ((ops.zipIdx n).map fun (op, i) => ⟨op.describe, e'.runFile ⟨tweakId, side, i⟩ op⟩)
  | [], _, _ => .nil _
  | op :: ops, n, h => by
    obtain ⟨hop, hops⟩ := List.pairwise_cons.mp h
    refine .cons (runFile_shadows he hm (fun ha => ⟨op, List.mem_cons_self, ha, rfl⟩) ?_)
      (files_shadow tweakId side ops (n + 1) hops)
    rintro p ⟨b, hb, ha, rfl⟩
    exact ⟨⟨b, List.mem_cons_of_mem _ hb, ha, rfl⟩, hop b hb ha⟩

/-- **The steps of a tweak** and their counterparts, or neither. -/
theorem runSteps_shadow (ho : s₀.host.machine.Outspoken) {tweakId : String} {side : Side}
    {ops : OperationSet}
    (hfiles : ops.files.Pairwise fun a b => b.action = .delete → b.path ∉ a.uses) :
    (∃ f, e.runSteps tweakId side ops = .error f ∧ e'.runSteps tweakId side ops = .error f) ∨
    ∃ steps steps', e.runSteps tweakId side ops = .ok steps ∧
      e'.runSteps tweakId side ops = .ok steps' ∧
      StepsShadow s₀ (FileOperation.Doomed ops.files) steps steps' := by
  have hlast := files_shadow he hm tweakId side ops.files 0 hfiles
  unfold runSteps
  rcases scripts_shadow he hm ho hlast ops.scripts with ⟨f, hf, hf'⟩ | ⟨steps, steps', hs, hs', h⟩
  · exact .inl ⟨f, by rw [hf]; rfl, by rw [hf']; rfl⟩
  · rw [hs, hs']
    refine .inr ⟨_, _, rfl, rfl, ?_⟩
    rw [List.append_assoc, List.append_assoc, List.append_assoc, List.append_assoc]
    exact stepsFor_shadows _ (fun _ op => runRegistry_shadows he hm op)
      (stepsFor_shadows _ (fun _ op => runService_shadows he hm op) h)

omit he hm

/-- What is on record at the end of two calls whose runs are side by side. -/
theorem record_of_abreast {s s' d' a b : Session Machine} (h : Abreast s₀ P a b)
    (hs₀ : ledger s₀ = ledger s) (hs' : ledger s' = ledger a) (hd' : ledger d' = ledger b) :
    ∃ writes plans, s'.host.writes = s.host.writes ++ writes ∧
      d'.host.plans = s.host.plans ++ plans ∧ writes.map Write.plan = plans.map .ok ∧
      d'.host.writes = s.host.writes ∧ d'.host.machine = s.host.machine := by
  have hwrites : s₀.host.writes = s.host.writes := congrArg (·.2.1) hs₀
  have hplans : s₀.host.plans = s.host.plans := congrArg (·.2.2) hs₀
  have hmachine : s₀.host.machine = s.host.machine := congrArg (·.1) hs₀
  obtain ⟨writes, plans, hws, hps, hmap⟩ := h.record
  refine ⟨writes, plans, ?_, ?_, hmap, ?_, ?_⟩
  · exact (congrArg (·.2.1) hs').trans (hwrites ▸ hws)
  · exact (congrArg (·.2.2) hd').trans (hplans ▸ hps)
  · exact (congrArg (·.2.1) hd').trans (h.unwritten.trans hwrites)
  · exact (congrArg (·.1) hd').trans (h.still.trans hmachine)

end Engine

/-- A write that a machine carries out and that can be put in words is sound. -/
theorem Write.sound_of_isOk {w : Write} {m : Machine}
    (h : ((m.apply w).isOk && w.plan.isOk) = true) : w.Sound := by
  obtain ⟨happly, hplan⟩ := Bool.and_eq_true_iff.mp h
  constructor
  · cases ha : m.apply w with
    | error f => rw [ha] at happly; cases happly
    | ok x => exact ⟨m, x.1, x.2, ha⟩
  · cases hw : w.plan with
    | error f => rw [hw] at hplan; cases hplan
    | ok text => exact ⟨text, rfl⟩

/-- A tweak with an operation of each sort; its script fails. -/
def sampleDrill : Tweak :=
  { id := "drill"
    name := .text "Drill"
    operations :=
      { registry := [{ hive := .localMachine, keyPath := .text "Demo", value := .int 1
                       valueName := .text "level", action := .setValue }]
        services := [{ service := .text "Spooler", action := .stop }]
        scripts := [{ script := .text "exit 3" }]
        files := [{ path := .text "new", action := .createFile, content := .text "text" },
                  { path := .text "old", action := .delete, backup := .text "kept" }] } }

/-- A session on a machine with the service, the script and the old file. -/
def sampleDrillSession : Session Machine :=
  { host :=
      { machine :=
          { services := [("spooler", { name := "Spooler" })]
            files := [("old", .text "1")]
            scripts := [("exit 3", { outcome := { exitCode := some 3 } })] } } }

/-- An engine with administrator rights. -/
def samplePerformer : Engine Machine := { mutator := Machine.mutator }

/-- An engine that only plans, and requires no rights. -/
def samplePlanner : Engine Machine :=
  { mutator := Machine.mutator.dryRun, requireElevation := false, elevated := false }

example : ((samplePlanner.apply (fun _ => false) sampleDrill).on sampleDrillSession).2.host.plans =
    ["set HKLM\\Demo\\level = 1", "stop service Spooler", "run script (6 chars, timeout 30s)",
      "write 4 chars to new", "copy old to kept", "delete old"] := by
  decide +kernel

end TweakEngine
