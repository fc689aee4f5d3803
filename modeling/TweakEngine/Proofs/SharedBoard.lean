/-
# Two callers at one board

One caller takes the changes to apply off the board, then those to revert, carries some of
them out and puts the others back.  Another caller queues changes and takes them off, between
any two of these steps (`Move`).  Every call is one step.

Up to the putting back at most one change waits for each tweak (`Moves.sound`).  Putting back
compares what returns with the board, but not with itself: two changes for one tweak return
when one was taken with the changes to apply, its revert was queued before the changes to
revert were taken, neither was carried out, and nothing waits for the tweak by then
(`Shared.Sound.putBack_iff`, `sample_two_changes`).  This cannot happen when nothing is queued
between the two takings (`not_clash_of_unqueued`).  The steps of the first caller are those of
the service (`Service.applyPending_moves`).
-/

import TweakEngine.Proofs.PendingChanges
import Mathlib.Logic.Relation

namespace TweakEngine

variable {μ : Type}

/-! ## Steps on the board -/

namespace Desk

variable {d : Desk μ}

theorem take_on (action : Option Action) (d : Desk μ) : (take action).on d =
    (.ok (d.board.take action).1, { d with board := (d.board.take action).2 }) := rfl

theorem putBack_pending (changes : List Change) (d : Desk μ) :
    ((putBack changes).on d).2.board.pending =
      d.board.returning changes ++ d.board.pending := by
  have hput : (putBack changes).on d = ((do
      if !(d.board.returning changes).isEmpty then
        onHost (Host.say .info speaker
          ("Kept " ++ toString (d.board.returning changes).length ++
            " pending changes that did not run")) : Act (Desk μ) Unit)).on
        { d with board := { d.board with
          pending := d.board.returning changes ++ d.board.pending } } := rfl
  rw [hput]
  split <;> rfl

end Desk

/-- How far the caller has come who carries out what waits. -/
inductive Phase
  | idle
  /-- The changes to apply are taken. -/
  | halfway (applies : List Change)
  /-- The changes to revert are taken as well. -/
  | running (applies reverts : List Change)
  /-- What did not run is put back. -/
  | settled

/-- A desk that two callers work at. -/
structure Shared (μ : Type) where
  desk : Desk μ
  phase : Phase

/-- One step of one of the callers. -/
inductive Move : Shared μ → Shared μ → Prop
  | queue (tweakId : String) (action : Action) (s : Shared μ) :
      Move s { s with desk := ((Desk.queue tweakId action).on s.desk).2 }
  | unqueue (tweakId : String) (s : Shared μ) :
      Move s { s with desk := ((Desk.unqueue tweakId).on s.desk).2 }
  | clear (s : Shared μ) : Move s { s with desk := (Desk.clear.on s.desk).2 }
  | takeApplies {d d' : Desk μ} {applies : List Change}
      (h : (Desk.take (some .apply)).on d = (.ok applies, d')) :
      Move ⟨d, .idle⟩ ⟨d', .halfway applies⟩
  | takeReverts {d d' : Desk μ} {applies reverts : List Change}
      (h : (Desk.take (some .revert)).on d = (.ok reverts, d')) :
      Move ⟨d, .halfway applies⟩ ⟨d', .running applies reverts⟩
  /-- Changes are carried out, which leaves the board. -/
  | work {d : Desk μ} {applies reverts : List Change} (shelf : Shelf μ) :
      Move ⟨d, .running applies reverts⟩ ⟨{ d with shelf }, .running applies reverts⟩
  | putBack {d : Desk μ} {applies reverts : List Change} (left : Change → Bool) :
      Move ⟨d, .running applies reverts⟩
        ⟨((Desk.putBack ((applies ++ reverts).filter left)).on d).2, .settled⟩

/-- Steps of the callers, one after the other. -/
abbrev Moves : Shared μ → Shared μ → Prop := Relation.ReflTransGen Move

/-! ## One change for each tweak -/

namespace Board

variable {b : Board} {applies reverts : List Change} {left : Change → Bool}

theorem AtMostOne.sublist {b' : Board} (h : b.AtMostOne)
    (hsub : b'.pending.Sublist b.pending) : b'.AtMostOne := (hsub.map Change.key).nodup h

/-- Two changes for one tweak return to the board. -/
def Clash (applies reverts : List Change) (left : Change → Bool) (b : Board) : Prop :=
  ∃ a ∈ applies, ∃ r ∈ reverts, a.key = r.key ∧ left a = true ∧ left r = true ∧
    ∀ ch ∈ b.pending, ch.key ≠ a.key

/-- A change that may return is about a tweak for which nothing waits. -/
theorem mem_returning {changes : List Change} {ch : Change} :
    ch ∈ b.returning changes ↔ ch ∈ changes ∧ ∀ x ∈ b.pending, x.key ≠ ch.key := by
  rw [returning, List.mem_filter, Bool.not_eq_true', List.any_eq_false]
  refine and_congr_right fun _ => forall₂_congr fun x _ => ?_
  rw [show Text.fold ch.tweakId = ch.key from rfl, about_iff]

/-- **What returns keeps one change for each tweak** exactly if nothing clashes. -/
theorem returning_nodup_iff (hb : b.AtMostOne) (ha : (applies.map Change.key).Nodup)
    (hr : (reverts.map Change.key).Nodup) :
    ((b.returning ((applies ++ reverts).filter left) ++ b.pending).map Change.key).Nodup ↔
      ¬Clash applies reverts left b := by
  have hsplit : b.returning ((applies ++ reverts).filter left) =
      b.returning (applies.filter left) ++ b.returning (reverts.filter left) := by
    rw [List.filter_append, returning, List.filter_append]
    rfl
  have hpart {cs : List Change} (h : (cs.map Change.key).Nodup) :
      ((b.returning (cs.filter left)).map Change.key).Nodup :=
    ((List.filter_sublist.trans List.filter_sublist).map Change.key).nodup h
  have hfresh : ∀ k ∈ (b.returning ((applies ++ reverts).filter left)).map Change.key,
      ∀ k' ∈ b.pending.map Change.key, k ≠ k' := by
    intro k hk k' hk' hsame
    obtain ⟨x, hx, rfl⟩ := List.mem_map.mp hk
    obtain ⟨y, hy, rfl⟩ := List.mem_map.mp hk'
    exact (mem_returning.mp hx).2 y hy hsame.symm
  rw [List.map_append, List.nodup_append, and_iff_left ⟨hb, hfresh⟩, hsplit, List.map_append,
    List.nodup_append, and_iff_right (hpart ha), and_iff_right (hpart hr)]
  constructor
  · rintro hapart ⟨a, hma, r, hmr, hsame, hla, hlr, hnone⟩
    refine hapart a.key (List.mem_map_of_mem (mem_returning.mpr
      ⟨List.mem_filter.mpr ⟨hma, hla⟩, hnone⟩)) r.key (List.mem_map_of_mem (mem_returning.mpr
      ⟨List.mem_filter.mpr ⟨hmr, hlr⟩, fun ch hch => hsame ▸ hnone ch hch⟩)) hsame
  · intro hnone k hk k' hk' hsame
    obtain ⟨a, hma, rfl⟩ := List.mem_map.mp hk
    obtain ⟨r, hmr, rfl⟩ := List.mem_map.mp hk'
    obtain ⟨hma, hfree⟩ := mem_returning.mp hma
    obtain ⟨hma, hla⟩ := List.mem_filter.mp hma
    obtain ⟨hmr, hlr⟩ := List.mem_filter.mp (mem_returning.mp hmr).1
    exact hnone ⟨a, hma, r, hmr, hsame, hla, hlr, hfree⟩

end Board

/-- The changes that were taken are about different tweaks, within each of the two takings. -/
def Phase.Apart : Phase → Prop
  | .halfway applies => (applies.map Change.key).Nodup
  | .running applies reverts =>
    (applies.map Change.key).Nodup ∧ (reverts.map Change.key).Nodup
  | .idle | .settled => True

/-- At most one change waits for each tweak, and what was taken is about different tweaks. -/
structure Shared.Sound (s : Shared μ) : Prop where
  board : s.desk.board.AtMostOne
  taken : s.phase.Apart

variable {s t u : Shared μ}

/-- **Every step but the putting back** keeps one change for each tweak. -/
theorem Move.sound (h : Move s t) (hs : s.Sound)
    (hputs : s.phase ≠ .settled → t.phase ≠ .settled) : t.Sound := by
  obtain ⟨hb, htaken⟩ := hs
  cases h with
  | queue tweakId action => exact ⟨Desk.queue_atMostOne tweakId action hb, htaken⟩
  | unqueue tweakId => exact ⟨hb.sublist List.filter_sublist, htaken⟩
  | clear => exact ⟨hb.sublist (List.nil_sublist _), htaken⟩
  | takeApplies h =>
    cases h
    exact ⟨hb.sublist List.filter_sublist, hb.filter _⟩
  | takeReverts h =>
    cases h
    exact ⟨hb.sublist List.filter_sublist, htaken, hb.filter _⟩
  | work shelf => exact ⟨hb, htaken⟩
  | putBack left => exact absurd rfl (hputs nofun)

theorem Move.settled (h : Move s t) (hs : s.phase = .settled) : t.phase = .settled := by
  cases h with
  | queue | unqueue | clear => exact hs
  | takeApplies | takeReverts | work | putBack => cases hs

/-- Up to the putting back at most one change waits for each tweak after every step. -/
theorem Moves.sound (h : Moves s t) (hs : s.Sound) (hopen : t.phase ≠ .settled) : t.Sound := by
  induction h with
  | refl => exact hs
  | tail _ hstep ih =>
    exact hstep.sound (ih fun hb => hopen (hstep.settled hb)) fun _ => hopen

/-- After the putting back a board stays as it should be. -/
theorem Moves.sound_of_settled (h : Moves s t) (hs : s.Sound) (hsettled : s.phase = .settled) :
    t.Sound ∧ t.phase = .settled := by
  induction h with
  | refl => exact ⟨hs, hsettled⟩
  | tail _ hstep ih =>
    exact ⟨hstep.sound ih.1 fun hne => absurd ih.2 hne, hstep.settled ih.2⟩

/-- Putting back keeps one change for each tweak exactly if nothing clashes. -/
theorem Shared.Sound.putBack_iff {applies reverts : List Change} (hs : s.Sound)
    (hphase : s.phase = .running applies reverts) (left : Change → Bool) :
    ((Desk.putBack ((applies ++ reverts).filter left)).on s.desk).2.board.AtMostOne ↔
      ¬s.desk.board.Clash applies reverts left := by
  have htaken := hs.taken
  rw [hphase] at htaken
  rw [Board.AtMostOne, Desk.putBack_pending]
  exact Board.returning_nodup_iff hs.board htaken.1 htaken.2

/-- Nothing clashes when nothing is queued between the two takings. -/
theorem not_clash_of_unqueued {d d' e e' : Desk μ} {applies reverts : List Change}
    (hd : d.board.AtMostOne) (happlies : (Desk.take (some .apply)).on d = (.ok applies, d'))
    (hunqueued : ∀ ch ∈ e.board.pending, ch ∈ d'.board.pending)
    (hreverts : (Desk.take (some .revert)).on e = (.ok reverts, e')) (left : Change → Bool)
    (b : Board) : ¬b.Clash applies reverts left := by
  rintro ⟨a, ha, r, hr, hsame, -⟩
  rw [Desk.take_on, Board.take] at happlies hreverts
  cases happlies
  cases hreverts
  obtain ⟨ha, happly⟩ := List.mem_filter.mp ha
  obtain ⟨hr, hother⟩ := List.mem_filter.mp (hunqueued r (List.mem_filter.mp hr).1)
  obtain rfl := List.inj_on_of_nodup_map hd ha hr hsame
  rw [Bool.not_eq_true'] at hother
  exact Bool.false_ne_true (hother.symm.trans happly)

/-- **Two callers at one board.**  From a board with at most one change for each tweak, and
however the steps of the two callers fall, at most one change waits for each tweak until what
did not run is put back.  After the putting back this still holds exactly if no two changes for
one tweak return, which they never do when nothing is queued between the two takings; and once
it holds after the putting back it holds from then on. -/
theorem Moves.atMostOne (h : Moves s t) (hs : s.desk.board.AtMostOne) (hidle : s.phase = .idle) :
    (t.phase ≠ .settled → t.desk.board.AtMostOne) ∧
    (∀ {applies reverts}, t.phase = .running applies reverts → ∀ left : Change → Bool,
      (((Desk.putBack ((applies ++ reverts).filter left)).on t.desk).2.board.AtMostOne ↔
        ¬t.desk.board.Clash applies reverts left)) ∧
    (∀ {d d' e e' : Desk μ} {applies reverts}, d.board.AtMostOne →
      (Desk.take (some .apply)).on d = (.ok applies, d') →
      (∀ ch ∈ e.board.pending, ch ∈ d'.board.pending) →
      (Desk.take (some .revert)).on e = (.ok reverts, e') →
        ∀ left b, ¬Board.Clash applies reverts left b) ∧
    ∀ {u}, t.phase = .settled → t.desk.board.AtMostOne → Moves t u → u.desk.board.AtMostOne := by
  have hsound : s.Sound := ⟨hs, by rw [hidle]; trivial⟩
  refine ⟨fun hopen => (h.sound hsound hopen).board, fun hphase left => ?_,
    not_clash_of_unqueued, fun hsettled hboard hrest => ?_⟩
  · exact (h.sound hsound (by rw [hphase]; nofun)).putBack_iff hphase left
  · exact (hrest.sound_of_settled ⟨hboard, by rw [hsettled]; trivial⟩ hsettled).1.board

/-! ## A call of the service -/

open Program (deskPart)

/-- Steps of the two callers lead from one program to the other while changes are carried out. -/
structure Program.Shares (p p' : Program μ) : Prop where
  moves : ∀ applies reverts,
    Moves ⟨deskPart.get p, .running applies reverts⟩ ⟨deskPart.get p', .running applies reverts⟩
  catalog : p.catalog.Stays p'.catalog

section

variable {p p' : Program μ}

theorem Moves.of_board (h : p'.board = p.board) (applies reverts : List Change) :
    Moves ⟨deskPart.get p, .running applies reverts⟩ ⟨deskPart.get p', .running applies reverts⟩ := by
  have hdesk : deskPart.get p' = ⟨p.board, (deskPart.get p').shelf⟩ := by
    rw [← h]
    rfl
  rw [hdesk]
  exact .single (.work _)

theorem Moves.of_takes (p : Program μ) : Moves ⟨deskPart.get p, .idle⟩
    ⟨deskPart.get (p.withPending []), .running (p.waiting .apply) (p.waiting .revert)⟩ := by
  have htakes := Program.takes_on p fun applies reverts => Pure.pure (applies, reverts)
  obtain ⟨applies, p₁, happlies, hrest⟩ := Act.ok_of_on_bind htakes
  obtain ⟨reverts, p₂, hreverts, hrest⟩ := Act.ok_of_on_bind hrest
  obtain ⟨d₁, hd₁, rfl⟩ := Part.ok_of_on_lift happlies
  obtain ⟨d₂, hd₂, rfl⟩ := Part.ok_of_on_lift hreverts
  obtain ⟨hlists, hprogram⟩ := Prod.mk.inj hrest
  rw [← hprogram]
  cases hlists
  exact (Relation.ReflTransGen.single (.takeApplies hd₁)).tail (.takeReverts hd₂)

theorem Control.within_shares {c : Control μ}
    (hc : ∀ f, c.sink = some f → ∀ progress, (f progress).Along Program.Shares) :
    c.Within Program.Shares where
  trans h h' := ⟨fun applies reverts => (h.moves applies reverts).trans (h'.moves applies reverts),
    h.catalog.trans h'.catalog⟩
  reads h := ⟨Moves.of_board h.board, h.catalog⟩
  sink := hc

/-- **A call of the service** that carries out what waits goes these steps, if the reports of
progress do; when it returns, what did not run has been put back. -/
theorem Service.applyPending_moves {s : Service μ} {c : Control μ}
    (hc : ∀ f, c.sink = some f → ∀ progress, (f progress).Along Program.Shares)
    (p : Program μ) : ∃ t, Moves ⟨deskPart.get p, .idle⟩ t ∧
      t.desk.board.pending = ((s.applyPending c).on p).2.board.pending ∧
      ∀ results, ((s.applyPending c).on p).1 = .ok results → t.phase = .settled := by
  have hwithin := Control.within_shares hc
  obtain ⟨applied, reverted, h⟩ := carryOut_course (s := s) hwithin Program.Shares.catalog
    (p.waiting .apply) (p.waiting .revert) (p.withPending [])
  have hcarries : ∀ applies reverts, Moves ⟨deskPart.get (p.withPending []), .running applies reverts⟩
      ⟨deskPart.get (s.carriedOut c p), .running applies reverts⟩ :=
    course_keeps (P := fun p p' => ∀ applies reverts, Moves ⟨deskPart.get p, .running applies reverts⟩
        ⟨deskPart.get p', .running applies reverts⟩)
      (fun h h' applies reverts => (h applies reverts).trans (h' applies reverts))
      (fun _ _ => Moves.of_board rfl) Program.Shares.moves
      (List.forall_mem_append.mpr ⟨h.applies.each, h.reverts.each⟩) h.course
  have hrun := (Moves.of_takes p).trans (hcarries _ _)
  rw [applyPending_on, Act.on_bind]
  rw [carriedOut] at hrun
  rcases hcarry : (s.carryOut c (p.waiting .apply) (p.waiting .revert)).on (p.withPending []) with
    ⟨f | results, p₁⟩ <;> rw [hcarry] at hrun
  · exact ⟨_, hrun, rfl, fun _ h => by cases h⟩
  dsimp only
  rcases hsettle : (settle (p.waiting .apply ++ p.waiting .revert) results).on p₁ with
    ⟨f | results', p₂⟩
  · have hreads := settle_failed hsettle
    exact ⟨_, hrun, congrArg Board.pending hreads.board.symm, fun _ h => by cases h⟩
  · obtain ⟨-, -, hpending⟩ := settle_ok hsettle
    refine ⟨_, hrun.tail (.putBack (isLeft results p₂)), ?_, fun _ _ => rfl⟩
    rw [hpending, Desk.putBack_pending]
    rfl

end

/-! ## A sample -/

/-- A desk with a tweak that is to be applied. -/
def sampleDesk : Desk Machine :=
  ⟨sampleBoard [("a", .apply)], ⟨.memory [sampleSetting "a"], { machine := {} }⟩⟩

/-- The desk when the change to apply is taken and its revert is queued. -/
def sampleRequeued : Desk Machine :=
  ((Desk.queue "A" .revert).on ((Desk.take (some .apply)).on sampleDesk).2).2

/-- The changes that are taken. -/
def sampleApplies : List Change := (sampleDesk.board.take (some .apply)).1

def sampleReverts : List Change := (sampleRequeued.board.take (some .revert)).1

/-- The desk when both changes are taken. -/
def sampleTaken : Shared Machine :=
  ⟨((Desk.take (some .revert)).on sampleRequeued).2, .running sampleApplies sampleReverts⟩

/-- The desk when the apply has been carried out and the revert is put back. -/
def samplePutBack : Shared Machine :=
  ⟨((Desk.putBack ((sampleApplies ++ sampleReverts).filter fun ch =>
    some Action.revert == some ch.action)).on sampleTaken.desk).2, .settled⟩

theorem sample_moves : Moves ⟨sampleDesk, .idle⟩ sampleTaken :=
  ((Relation.ReflTransGen.single (.takeApplies rfl)).tail (.queue "A" .revert _)).tail
    (.takeReverts rfl)

/-- The rows of steps of the sample, with what the board holds in between and at the end. -/
theorem sample_moves_kept :
    Moves ⟨sampleDesk, .idle⟩ sampleTaken ∧ sampleDesk.board.AtMostOne ∧
    sampleTaken.desk.board.AtMostOne ∧
    (∀ left : Change → Bool,
      (((Desk.putBack ((sampleApplies ++ sampleReverts).filter left)).on
          sampleTaken.desk).2.board.AtMostOne ↔
        ¬sampleTaken.desk.board.Clash sampleApplies sampleReverts left)) ∧
    (∀ left b, ¬Board.Clash sampleApplies [] left b) ∧
    samplePutBack.desk.board.brief = [("a", .revert)] ∧
    (Desk.clear.on samplePutBack.desk).2.board.AtMostOne := by
  have hs : sampleDesk.board.AtMostOne := by decide
  have hall := sample_moves.atMostOne hs rfl
  have hback : Moves ⟨sampleDesk, .idle⟩ samplePutBack := sample_moves.tail (.putBack _)
  have hbrief : samplePutBack.desk.board.brief = [("a", .revert)] := by decide +kernel
  have hone : samplePutBack.desk.board.AtMostOne := by decide +kernel
  exact ⟨sample_moves, hs, hall.1 nofun, hall.2.1 rfl,
    hall.2.2.1 (e := ((Desk.take (some .apply)).on sampleDesk).2) hs rfl (fun _ h => h) rfl,
    hbrief, (Moves.atMostOne hback hs rfl).2.2.2 rfl hone (.single (.clear samplePutBack))⟩

/-- **Two changes for one tweak**: the apply of a tweak is taken, its revert is queued and taken
as well, neither is carried out, and both return. -/
theorem sample_two_changes : ∃ s t : Shared Machine, s.phase = .idle ∧ s.desk.board.AtMostOne ∧
    Moves s t ∧ t.desk.board.brief = [("a", .apply), ("a", .revert)] ∧
    ¬t.desk.board.AtMostOne :=
  ⟨⟨sampleDesk, .idle⟩, _, rfl, by decide, sample_moves.tail (.putBack fun _ => true),
    by decide +kernel, by decide +kernel⟩

end TweakEngine
