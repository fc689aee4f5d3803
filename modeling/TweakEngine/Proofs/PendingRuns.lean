/-
# Carrying out what waits

`Service.applyPending` takes all changes off the board, carries them out, and puts back what
is left (`applyPending_on`).  Carrying out is a course of rounds (`carryOut_course`): first
one for each tweak to apply, then one for each tweak to revert, each group in the order of
the board and cut short by a cancellation or a failure.
-/

import TweakEngine.Proofs.BatchCourse
import TweakEngine.Proofs.Shelves
import TweakEngine.Service

namespace TweakEngine

variable {μ α : Type}

/-! ## Restore points -/

namespace Act.Keeps

theorem shell (text : String) (timeout : Datum) :
    Keeps Host.deeds (Host.shell text timeout : Call μ ShellResult) :=
  command (fun _ _ _ => rfl) _ _

theorem restoreShell (r : RestorePoints) (text : String) :
    Keeps Host.deeds (r.shell text : Call μ ShellResult) := by
  unfold RestorePoints.shell
  split
  · exact shell _ _
  · exact pure _

theorem isEnabled (r : RestorePoints) : Keeps Host.deeds (r.isEnabled : Call μ Bool) := by
  unfold RestorePoints.isEnabled
  split
  · exact pure _
  · refine bind (restoreShell _ _) fun _ => ?_
    split
    · exact pure _
    · split <;> exact pure _

theorem readAll : ∀ ds : List Datum,
    Keeps Host.deeds (RestorePoints.readAll ds : Call μ (List RestorePoint))
  | [] => pure _
  | d :: ds => by
    refine bind ((result _).rescue _) fun r => ?_
    cases r with
    | ok p => exact bind (readAll ds) fun _ => pure _
    | error f => exact bind (say _ _ _) fun _ => readAll ds

theorem listPoints (r : RestorePoints) (limit : Datum) :
    Keeps Host.deeds (r.list limit : Call μ (List RestorePoint)) := by
  unfold RestorePoints.list
  split
  · exact pure _
  · refine bind (restoreShell _ _) fun _ => ?_
    split
    · exact pure _
    · split
      · exact bind (say _ _ _) fun _ => pure _
      · exact throw _
      · exact readAll _
      · exact bind (result _) fun _ => readAll _

theorem createPoint (r : RestorePoints) (description : String) :
    Keeps Host.deeds (r.create description : Call μ (Option Int)) := by
  unfold RestorePoints.create
  split
  · exact bind (say _ _ _) fun _ => pure _
  · dsimp only
    split
    · exact bind (say _ _ _) fun _ => pure _
    · refine bind (restoreShell _ _).discard fun _ => bind (restoreShell _ _) fun _ => ?_
      split
      · exact bind (say _ _ _) fun _ => pure _
      · refine bind (listPoints _ _) fun ps => ?_
        split
        · exact pure _
        · exact bind (say _ _ _) fun _ => pure _

theorem makeRestorePoint (s : Service μ) (description : String) :
    Keeps Host.deeds (s.makeRestorePoint description) := by
  refine bind (isEnabled _) fun enabled => ?_
  split
  · exact createPoint _ _
  · exact bind (say _ _ _) fun _ => pure _

end Act.Keeps

/-! ## What only looks up -/

namespace Program

/-- Nothing is done to the machine from one program to the other, and the configuration and
a catalog that lists its tweaks stay. -/
structure Quiet (p p' : Program μ) : Prop where
  config : p'.config = p.config
  catalog : p.catalog.Stays p'.catalog
  deeds : p'.session.host.deeds = p.session.host.deeds

/-- Nothing but looking up leads from one program to the other. -/
structure Reads (p p' : Program μ) : Prop extends Quiet p p' where
  board : p'.board = p.board

variable {p p' p'' : Program μ}

theorem Quiet.refl (p : Program μ) : Quiet p p := ⟨rfl, .refl _, rfl⟩

theorem Quiet.trans (h : Quiet p p') (h' : Quiet p' p'') : Quiet p p'' :=
  ⟨h'.config.trans h.config, h.catalog.trans h'.catalog, h'.deeds.trans h.deeds⟩

theorem Reads.refl (p : Program μ) : Reads p p := ⟨.refl p, rfl⟩

theorem Reads.trans (h : Reads p p') (h' : Reads p' p'') : Reads p p'' :=
  ⟨h.toQuiet.trans h'.toQuiet, h'.board.trans h.board⟩

theorem onDesk_reads {a : Act (Desk μ) α} (h : a.Along Desk.Reads) : (onDesk a).Along Reads :=
  fun p => ⟨⟨rfl, (h (deskPart.get p)).catalog, (h (deskPart.get p)).deeds⟩,
    (h (deskPart.get p)).board⟩

theorem onHost_reads {a : Call μ α} (h : a.Keeps Host.deeds) : (onHost a).Along Reads :=
  fun p => ⟨⟨rfl, .refl _, h p.session.host⟩, rfl⟩

theorem find?_reads (tweakId : String) : (Service.find? tweakId : Task μ _).Along Reads :=
  fun p => ⟨⟨rfl, Catalog.find?_stays tweakId (shelfPart.get p),
    Act.Keeps.find? tweakId (shelfPart.get p)⟩, rfl⟩

theorem say_reads (level : Level) (speaker text : String) :
    (sessionPart.lift (Session.say level speaker text) : Task μ Unit).Along Reads :=
  fun _ => ⟨⟨rfl, .refl _, rfl⟩, rfl⟩

theorem tweaksOf_reads (cs : List Change) :
    (onDesk (Desk.tweaksOf cs) : Task μ (List Tweak)).Along Reads :=
  onDesk_reads (Desk.tweaksOf_reads cs)

end Program

/-- The tweaks of changes, as far as the catalog lists them. -/
def Catalog.tweaksOf (c : Catalog) (cs : List Change) : List Tweak :=
  cs.filterMap fun ch => c.known? ch.tweakId

theorem Catalog.Stays.tweaksOf {c c' : Catalog} {cs : List Change} (h : c.Stays c')
    (hc : cs ≠ [] → c.listed? ≠ none) : c'.tweaksOf cs = c.tweaksOf cs := by
  cases cs with
  | nil => rfl
  | cons ch cs => rw [h (hc (List.cons_ne_nil _ _))]

theorem Program.tweaksOf_answers {cs : List Change} {p p' : Program μ} {ts : List Tweak}
    (h : (onDesk (Desk.tweaksOf cs)).on p = (.ok ts, p')) :
    (cs ≠ [] → p'.catalog.listed? ≠ none) ∧ ts = p'.catalog.tweaksOf cs := by
  obtain ⟨d, hd, rfl⟩ := Part.ok_of_on_lift h
  exact Desk.tweaksOf_answers hd

/-- The relation holds of whatever only looks up, is transitive, and is gone along by the
reports of progress. -/
structure Control.Within (c : Control μ) (Q : Program μ → Program μ → Prop) : Prop where
  trans : ∀ {p p' p''}, Q p p' → Q p' p'' → Q p p''
  reads : ∀ {p p'}, Program.Reads p p' → Q p p'
  sink : ∀ f, c.sink = some f → ∀ progress, (f progress).Along Q

theorem Control.Within.between {c : Control μ} {Q : Program μ → Program μ → Prop}
    (h : c.Within Q) : Between Program.sessionPart c.sink Q where
  refl p := h.reads (.refl p)
  trans := h.trans
  sink := h.sink
  say level speaker text p := h.reads (Program.say_reads level speaker text p)

namespace Service

open Program

variable {s : Service μ} {c : Control μ} {Q : Program μ → Program μ → Prop}
  {e : Engine μ} {p p' : Program μ} {toApply toRevert : List Change}
  {rounds applied reverted : List (Round (Program μ))}

/-- A round changes the session alone. -/
theorem round_after {x : Round (Program μ)} (hx : x.Of e sessionPart c.cancelled) :
    x.after = { x.before with session := x.after.session } := by
  have hx : (x.outcome, x.after) = _ := hx.symm
  rw [(Prod.mk.inj hx).2]
  rfl

/-- The rounds of a course keep what the session has no part in, if the rest does. -/
theorem course_keeps {P : Program μ → Program μ → Prop} (hP : ∀ {p p' p''}, P p p' → P p' p'' → P p p'')
    (hsession : ∀ (p : Program μ) session, P p { p with session }) (hQ : ∀ {p p'}, Q p p' → P p p')
    (hrounds : ∀ x ∈ rounds, x.Of e sessionPart c.cancelled) (hc : Course Q p rounds p') :
    P p p' :=
  Course.along (P := P) hP hQ (fun x hx => by
    rw [round_after (hrounds x hx)]
    exact hsession _ _) hc

/-- The engine of a service, also for tweaks that are applied already. -/
def engineFor (s : Service μ) (force : Bool) : Engine μ :=
  if force then { s.engine with skipIfApplied := false } else s.engine

theorem runBatch_course (hQ : c.Within Q) (e : Engine μ) (action : Action) (tweaks : List Tweak)
    (p : Program μ) : ∃ rounds, e.Batched sessionPart c.cancelled Q action tweaks rounds p
      ((runBatch e action tweaks c).on p) :=
  Engine.runBatch_course hQ.between tweaks p

/-- Applying tweaks is a course. -/
theorem runApply_course (hQ : c.Within Q) (tweaks : List Tweak) (force : Bool) (p : Program μ) :
    ∃ rounds, (s.engineFor force).Batched sessionPart c.cancelled Q .apply tweaks rounds p
      ((s.runApply tweaks c force).on p) := by
  have hbatch := runBatch_course hQ (s.engineFor force) .apply
  cases tweaks with
  | nil => exact hbatch [] p
  | cons t ts =>
    unfold runApply
    simp only [List.isEmpty_cons, Bool.false_eq_true, if_false]
    rw [Act.on_bind, Act.on_view]
    dsimp only
    split
    · rw [Act.discard_bind, Act.on_bind]
      have hpoint := hQ.reads (onHost_reads (Act.Keeps.makeRestorePoint s
        ("Before applying " ++ toString (t :: ts).length ++ " tweak(s)")) p)
      revert hpoint
      rcases (onHost (s.makeRestorePoint
        ("Before applying " ++ toString (t :: ts).length ++ " tweak(s)"))).on p with ⟨f | _, p₁⟩ <;>
        intro hpoint
      · exact ⟨[], .none hpoint⟩
      · obtain ⟨rounds, h⟩ := hbatch (t :: ts) p₁
        exact ⟨rounds, h.after hQ.between hpoint⟩
    · exact hbatch (t :: ts) p

/-- A course leaves a catalog that lists its tweaks. -/
theorem course_stays (hstays : ∀ {p p'}, Q p p' → p.catalog.Stays p'.catalog)
    (hrounds : ∀ x ∈ rounds, x.Of e sessionPart c.cancelled) (hc : Course Q p rounds p') :
    p.catalog.Stays p'.catalog :=
  course_keeps (P := fun p p' => p.catalog.Stays p'.catalog) Catalog.Stays.trans
    (fun _ _ => .refl _) hstays hrounds hc

/-! ## Carrying out changes -/

/-- Applies the tweaks of changes. -/
def applyThose (s : Service μ) (c : Control μ) (cs : List Change) : Task μ (Assoc String Result) := do
  s.runApply (← onDesk (Desk.tweaksOf cs)) c false

/-- Reverts the tweaks of changes. -/
def revertThose (s : Service μ) (c : Control μ) (cs : List Change) :
    Task μ (Assoc String Result) := do
  runBatch s.engine .revert (← onDesk (Desk.tweaksOf cs)) c

/-- Carries out changes: applies some, and reverts others unless it is cancelled before. -/
def carryOut (s : Service μ) (c : Control μ) (toApply toRevert : List Change) :
    Task μ (Assoc String Result) := do
  let results ← s.applyThose c toApply
  if ← Act.view c.cancelled then return results
  else return Assoc.update results (← s.revertThose c toRevert)

/-- The rounds of a batch over the tweaks of changes are about those that the catalog knows
in the end, however much later that is. -/
theorem batch_course (hQ : c.Within Q) (hstays : ∀ {p p'}, Q p p' → p.catalog.Stays p'.catalog)
    {action : Action} {batch : List Tweak → Task μ (Assoc String Result)}
    (hbatch : ∀ tweaks p, ∃ rounds,
      e.Batched sessionPart c.cancelled Q action tweaks rounds p ((batch tweaks).on p))
    (cs : List Change) (p : Program μ) :
    ∃ rounds, ∀ later, ((onDesk (Desk.tweaksOf cs) >>= batch).on p).2.catalog.Stays later →
      e.Batched sessionPart c.cancelled Q action (later.tweaksOf cs) rounds p
        ((onDesk (Desk.tweaksOf cs) >>= batch).on p) := by
  rw [Act.on_bind]
  have hreads := hQ.reads (tweaksOf_reads cs p)
  rcases htweaks : (onDesk (Desk.tweaksOf cs)).on p with ⟨f | ts, p₁⟩ <;> rw [htweaks] at hreads
  · exact ⟨[], fun _ _ => .none hreads⟩
  · obtain ⟨hlisted, rfl⟩ := tweaksOf_answers htweaks
    obtain ⟨rounds, h⟩ := hbatch (p₁.catalog.tweaksOf cs) p₁
    refine ⟨rounds, fun later hlater => ?_⟩
    have hstay := (course_stays hstays h.each h.course).trans hlater
    rw [hstay.tweaksOf hlisted]
    exact h.after hQ.between hreads

/-- The rounds of carrying out changes, and what it gives: first applies, then reverts, each
about the first tweaks of the changes that the catalog knows. -/
structure Carries (s : Service μ) (c : Control μ) (Q : Program μ → Program μ → Prop)
    (toApply toRevert : List Change) (applied reverted : List (Round (Program μ)))
    (p : Program μ) (out : Except Failure (Assoc String Result) × Program μ) : Prop where
  course : Course Q p (applied ++ reverted) out.2
  applies : s.engine.RoundsOf sessionPart c.cancelled .apply (out.2.catalog.tweaksOf toApply) applied
  reverts :
    s.engine.RoundsOf sessionPart c.cancelled .revert (out.2.catalog.tweaksOf toRevert) reverted
  results : ∀ r, out.1 = .ok r →
    r = Assoc.update (Assoc.ofList (applied.filterMap Round.entry?))
        (Assoc.ofList (reverted.filterMap Round.entry?)) ∧
      ∀ x ∈ applied ++ reverted, ∃ y, x.outcome = .ok y

/-- **Carrying out changes** is a course of applies and then reverts. -/
theorem carryOut_course (hQ : c.Within Q) (hstays : ∀ {p p'}, Q p p' → p.catalog.Stays p'.catalog)
    (toApply toRevert : List Change) (p : Program μ) : ∃ applied reverted,
      s.Carries c Q toApply toRevert applied reverted p ((s.carryOut c toApply toRevert).on p) := by
  obtain ⟨applied, happlied⟩ := batch_course hQ hstays
    (fun tweaks p => runApply_course (s := s) hQ tweaks false p) toApply p
  change ∀ later, ((s.applyThose c toApply).on p).2.catalog.Stays later →
    s.engine.Batched _ _ _ _ _ _ _ ((s.applyThose c toApply).on p) at happlied
  unfold carryOut
  rw [Act.on_bind]
  rcases hrun : (s.applyThose c toApply).on p with ⟨f | r₁, p₁⟩ <;> rw [hrun] at happlied
  · have h := happlied _ (.refl _)
    exact ⟨applied, [], by rw [List.append_nil]; exact h.course, h.toRoundsOf, .nil _, nofun⟩
  dsimp only
  rw [Act.on_bind, Act.on_view]
  dsimp only
  cases c.cancelled p₁ with
  | true =>
    have h := happlied _ (.refl _)
    refine ⟨applied, [], by rw [List.append_nil]; exact h.course, h.toRoundsOf, .nil _, ?_⟩
    intro r hr
    cases hr
    rw [List.append_nil]
    exact h.results r₁ rfl
  | false =>
    simp only [Bool.false_eq_true, if_false]
    obtain ⟨reverted, hreverted⟩ := batch_course hQ hstays
      (runBatch_course hQ s.engine .revert) toRevert p₁
    change ∀ later, ((s.revertThose c toRevert).on p₁).2.catalog.Stays later →
      s.engine.Batched _ _ _ _ _ _ _ ((s.revertThose c toRevert).on p₁) at hreverted
    rw [Act.on_bind]
    have h₂ := hreverted _ (.refl _)
    have hstay := course_stays hstays h₂.each h₂.course
    rcases hrun₂ : (s.revertThose c toRevert).on p₁ with ⟨f | r₂, p₂⟩ <;> rw [hrun₂] at h₂ hstay
    · have h₁ := happlied _ hstay
      exact ⟨applied, reverted, hQ.between.course_append h₁.course h₂.course, h₁.toRoundsOf,
        h₂.toRoundsOf, nofun⟩
    · have h₁ := happlied _ hstay
      refine ⟨applied, reverted, hQ.between.course_append h₁.course h₂.course, h₁.toRoundsOf,
        h₂.toRoundsOf, fun r hr => ?_⟩
      cases hr
      obtain ⟨hr₁, hall₁⟩ := h₁.results r₁ rfl
      obtain ⟨hr₂, hall₂⟩ := h₂.results r₂ rfl
      rw [hr₁, hr₂]
      exact ⟨rfl, List.forall_mem_append.mpr ⟨hall₁, hall₂⟩⟩

/-! ## Putting back what is left -/

/-- The folded identifiers of the tweaks that were run to their end. -/
def finished (results : Assoc String Result) : List String :=
  (results.filter fun e => !e.2.cancelled).map fun e => Text.fold e.1

/-- Whether a change is left over in the end: it was not finished, and its tweak is known. -/
def isLeft (results : Assoc String Result) (p : Program μ) (ch : Change) : Bool :=
  !(finished results).contains (Text.fold ch.tweakId) && (p.catalog.known? ch.tweakId).isSome

/-- The test that chooses what is left. -/
def leftTest (results : Assoc String Result) (ch : Change) : Task μ Bool := do
  if (finished results).contains (Text.fold ch.tweakId) then return false
  return (← find? ch.tweakId).isSome

variable {results : Assoc String Result} {changes left : List Change}

theorem leftTest_reads (results : Assoc String Result) (ch : Change) :
    (leftTest results ch : Task μ Bool).Along Reads := by
  unfold leftTest
  split
  · exact Reads.refl
  · exact Act.Along.bind (Q := Reads) Reads.trans (find?_reads ch.tweakId) fun _ => Reads.refl

theorem find?_answers {tweakId : String} {t? : Option Tweak}
    (h : (find? tweakId).on p = (.ok t?, p')) :
    p'.catalog.listed? ≠ none ∧ t? = p'.catalog.known? tweakId := by
  have h : (shelfPart.lift (Catalog.find? tweakId)).on p = (.ok t?, p') := h
  obtain ⟨sh, hsh, rfl⟩ := Part.ok_of_on_lift h
  exact Catalog.find?_answers hsh

theorem leftTest_answers {ch : Change} {b : Bool} (h : (leftTest results ch).on p = (.ok b, p'))
    {later : Program μ} (hlater : Reads p' later) : b = isLeft results later ch := by
  unfold leftTest at h
  unfold isLeft
  split at h
  · next hf => cases h; rw [hf]; rfl
  · next hf =>
    obtain ⟨t?, p₁, hfind, h⟩ := Act.ok_of_on_bind h
    cases h
    obtain ⟨hl, rfl⟩ := find?_answers hfind
    rw [hlater.catalog hl, eq_false_of_ne_true hf]
    rfl

theorem unfinished_reads (results : Assoc String Result) (changes : List Change) :
    (unfinished results changes : Task μ _).Along Reads :=
  Act.Along.bind (Q := Reads) Reads.trans
    (Act.filterAuxM_along Reads.refl Reads.trans (leftTest_reads results) changes [])
    fun _ => Reads.refl

/-- **What is left** in the end. -/
theorem unfinished_answers (h : (unfinished results changes).on p = (.ok left, p')) :
    left = changes.filter (isLeft results p') :=
  Act.filterM_ok Reads.refl Reads.trans (leftTest_reads results) leftTest_answers h

/-- Puts back those of the changes that are left. -/
def settle (changes : List Change) (results : Assoc String Result) :
    Task μ (Assoc String Result) := do
  let left ← unfinished results changes
  onDesk (Desk.putBack left)
  onDesk (Desk.changeBoard Board.invalidate)
  return results

theorem putBack_on (left : List Change) (p : Program μ) :
    ∃ host : Host μ, (onDesk (Desk.putBack left)).on p = (.ok (), { p with
      board := { p.board with pending := p.board.returning left ++ p.board.pending }
      session := { p.session with host } }) ∧ host.deeds = p.session.host.deeds := by
  have hput : (Desk.putBack left).on (deskPart.get p) = ((do
      if !(p.board.returning left).isEmpty then
        Desk.onHost (Host.say .info Desk.speaker
          ("Kept " ++ toString (p.board.returning left).length ++
            " pending changes that did not run")) : Act (Desk μ) Unit)).on
        ⟨{ p.board with pending := p.board.returning left ++ p.board.pending }, p.catalog,
          p.session.host⟩ := rfl
  unfold onDesk
  rw [Part.on_lift, hput]
  split
  · exact ⟨_, rfl, rfl⟩
  · exact ⟨_, rfl, rfl⟩

end Service

namespace Program

/-- The program with given changes waiting. -/
def withPending (cs : List Change) (p : Program μ) : Program μ :=
  { p with board := { p.board with pending := cs } }

/-- The changes that wait with an action. -/
def waiting (action : Action) (p : Program μ) : List Change :=
  p.board.pending.filter fun ch => ch.action = action

theorem take_on (action : Action) (p : Program μ) :
    (onDesk (Desk.take (some action))).on p =
      (.ok (p.waiting action),
        p.withPending (p.board.pending.filter fun ch => ch.action ≠ action)) := by
  have hchosen : ∀ ch : Change, ((some action).isNone || some action == some ch.action) =
      decide (ch.action = action) := fun ch => by
    cases action <;> cases ch.action <;> rfl
  have htake : (onDesk (Desk.take (some action))).on p =
      (.ok (p.board.take (some action)).1, { p with board := (p.board.take (some action)).2 }) := rfl
  rw [htake, Board.take]
  simp only [hchosen, waiting, withPending, ne_eq, decide_not]

/-- All changes are taken off the board. -/
theorem takes_on (p : Program μ) {β : Type} (k : List Change → List Change → Task μ β) :
    (do
      let toApply ← onDesk (Desk.take (some .apply))
      let toRevert ← onDesk (Desk.take (some .revert))
      k toApply toRevert).on p =
    (k (p.waiting .apply) (p.waiting .revert)).on (p.withPending []) := by
  have hrevert : (p.withPending (p.board.pending.filter fun ch => ch.action ≠ .apply)).waiting .revert =
      p.waiting .revert := by
    rw [waiting, withPending, List.filter_filter, waiting]
    exact List.filter_congr fun ch _ => by cases ch.action <;> rfl
  have hnone : (p.board.pending.filter fun ch => ch.action ≠ .apply).filter
      (fun ch => ch.action ≠ .revert) = [] := by
    rw [List.filter_filter]
    exact List.filter_eq_nil_iff.mpr fun ch _ => by cases ch.action <;> decide
  rw [Act.on_bind_of_ok (take_on .apply p), Act.on_bind_of_ok (take_on .revert _), hrevert]
  exact congrArg (fun cs => (k _ _).on (p.withPending cs)) hnone

end Program

namespace Service

open Program

variable {results : Assoc String Result} {changes : List Change} {p p' : Program μ}

/-- **Carrying out what waits**: all changes are taken off the board and carried out, and
what is left is put back. -/
theorem applyPending_on (s : Service μ) (c : Control μ) (p : Program μ) :
    (s.applyPending c).on p =
      (s.carryOut c (p.waiting .apply) (p.waiting .revert) >>=
        settle (p.waiting .apply ++ p.waiting .revert)).on (p.withPending []) := by
  have heq : s.applyPending c = (do
      let toApply ← onDesk (Desk.take (some .apply))
      let toRevert ← onDesk (Desk.take (some .revert))
      s.carryOut c toApply toRevert >>= settle (toApply ++ toRevert)) := by
    simp only [applyPending, carryOut, applyThose, revertThose, bind_assoc]
    refine bind_congr fun toApply => bind_congr fun toRevert => bind_congr fun tweaks =>
      bind_congr fun results => bind_congr fun stopped => ?_
    cases stopped
    · simp only [Bool.false_eq_true, if_false, bind_assoc, pure_bind]
      rfl
    · simp only [if_true, pure_bind]
      rfl
  rw [heq]
  exact takes_on p fun toApply toRevert =>
    s.carryOut c toApply toRevert >>= settle (toApply ++ toRevert)

/-- Settling puts back what is left. -/
theorem settle_ok {r : Assoc String Result} (h : (settle changes results).on p = (.ok r, p')) :
    r = results ∧ p.catalog.Stays p'.catalog ∧
      p'.board.pending =
        p.board.returning (changes.filter (isLeft results p')) ++ p.board.pending := by
  obtain ⟨left, p₁, hleft, h⟩ := Act.ok_of_on_bind h
  have hreads := unfinished_reads results changes p
  rw [hleft] at hreads
  obtain ⟨host, hput, -⟩ := putBack_on left p₁
  rw [Act.on_bind_of_ok hput] at h
  cases h
  refine ⟨rfl, hreads.catalog, ?_⟩
  rw [← hreads.board, unfinished_answers hleft]
  rfl

/-- Settling fails before anything is put back. -/
theorem settle_failed {f : Failure} (h : (settle changes results).on p = (.error f, p')) :
    Reads p p' := by
  have hreads := unfinished_reads results changes p
  unfold settle at h
  rw [Act.on_bind] at h
  rcases hleft : (unfinished results changes).on p with ⟨g | left, p₁⟩ <;>
    rw [hleft] at h hreads
  · cases h
    exact hreads
  · obtain ⟨host, hput, -⟩ := putBack_on left p₁
    dsimp only at h
    rw [Act.on_bind_of_ok hput] at h
    cases h

/-- Settling does nothing to the machine. -/
theorem settle_quiet (changes : List Change) (results : Assoc String Result) :
    (settle changes results : Task μ _).Along Quiet := by
  refine Act.Along.bind (Q := Quiet) Quiet.trans
    (fun p => (unfinished_reads results changes p).toQuiet) fun left p => ?_
  obtain ⟨host, hput, hdeeds⟩ := putBack_on left p
  rw [Act.on_bind_of_ok hput]
  exact ⟨rfl, .refl _, hdeeds⟩

end Service
end TweakEngine
