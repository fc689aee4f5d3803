/-
# What becomes of waiting changes

When all that waits is carried out and the call returns, every change whose tweak is known
either ran to its end and is off the board, or still waits, and never both
(`applyPending_conserves`).  A call that fails puts nothing back: only what was queued while
it ran waits afterwards (`applyPending_failed`).

The reports of progress may queue further changes and do to the session whatever they like,
so they may also cancel the run; `Control.OnlyQueues` says that this is all they do.
-/

import TweakEngine.Proofs.PendingRuns
import TweakEngine.Proofs.Tables
import Mathlib.Data.List.Nodup
import Mathlib.Logic.Basic

namespace TweakEngine

variable {μ : Type}

/-- The folded identifier of the tweak that a change is about. -/
def Change.key (ch : Change) : String := Text.fold ch.tweakId

/-! ## Boards with one change for each tweak -/

namespace Board

variable {b b' : Board} {ch : Change}

/-- At most one change waits for each tweak. -/
def AtMostOne (b : Board) : Prop := (b.pending.map Change.key).Nodup

instance (b : Board) : Decidable b.AtMostOne := inferInstanceAs (Decidable (List.Nodup _))

/-- Queues changes one after the other. -/
def queueAll (cs : List Change) (b : Board) : Board := cs.foldl (fun b ch => b.queue ch) b

theorem queue_pending (ch : Change) (b : Board) :
    (b.queue ch).pending = (b.pending.filter fun x => !about ch.key x) ++ [ch] := rfl

theorem queueAll_append (cs ds : List Change) (b : Board) :
    b.queueAll (cs ++ ds) = (b.queueAll cs).queueAll ds := List.foldl_append ..

/-- What waits after queueing depends on what waited before alone. -/
theorem queueAll_pending (cs : List Change) (h : b.pending = b'.pending) :
    (b.queueAll cs).pending = (b'.queueAll cs).pending := by
  induction cs generalizing b b' with
  | nil => exact h
  | cons ch cs ih => exact ih (by rw [queue_pending, queue_pending, h])

theorem about_iff {key : String} : about key ch = true ↔ ch.key = key := beq_iff_eq

theorem AtMostOne.filter (h : b.AtMostOne) (keep : Change → Bool) :
    ((b.pending.filter keep).map Change.key).Nodup :=
  (List.filter_sublist.map Change.key).nodup h

theorem AtMostOne.queue (h : b.AtMostOne) (ch : Change) : (b.queue ch).AtMostOne := by
  rw [AtMostOne, queue_pending, List.map_append, List.nodup_append]
  refine ⟨h.filter _, List.nodup_singleton _, fun k hk k' hk' hsame => ?_⟩
  obtain ⟨x, hx, rfl⟩ := List.mem_map.mp hk
  obtain rfl := List.mem_singleton.mp hk'
  have hkept := (List.mem_filter.mp hx).2
  rw [about_iff.mpr hsame] at hkept
  cases hkept

theorem AtMostOne.queueAll (h : b.AtMostOne) (cs : List Change) : (b.queueAll cs).AtMostOne := by
  induction cs generalizing b with
  | nil => exact h
  | cons ch cs ih => exact ih (h.queue ch)

end Board

/-- **Letting an action wait** looks up the tweak and queues one change, or none. -/
theorem Desk.queue_reads (tweakId : String) (action : Action) (d : Desk μ) :
    ∃ d' cs, Reads d d' ∧
      ((Desk.queue tweakId action).on d).2 = { d' with board := d'.board.queueAll cs } := by
  have hfound := find?_reads tweakId d
  unfold Desk.queue
  rw [Act.on_bind]
  rcases hfind : (onShelf (Catalog.find? tweakId)).on d with ⟨f | t?, d₁⟩ <;> rw [hfind] at hfound
  · exact ⟨d₁, [], hfound, rfl⟩
  · cases t? with
    | none => exact ⟨_, [], hfound.trans (say_reads .warning speaker
        ("Cannot queue " ++ action.label ++ " for unknown tweak " ++ tweakId) d₁), rfl⟩
    | some t => exact ⟨d₁, [⟨t.id, t.name, action, d₁.shelf.host.clock⟩], hfound, rfl⟩

/-- Letting an action wait keeps one change for each tweak. -/
theorem Desk.queue_atMostOne (tweakId : String) (action : Action) {d : Desk μ}
    (h : d.board.AtMostOne) : ((Desk.queue tweakId action).on d).2.board.AtMostOne := by
  obtain ⟨d', cs, hreads, hd⟩ := queue_reads tweakId action d
  rw [hd]
  exact Board.AtMostOne.queueAll (hreads.board ▸ h) cs

namespace Program

/-- From one program to the other changes are queued, and a catalog that lists its tweaks
stays. -/
structure Onward (p p' : Program μ) : Prop where
  catalog : p.catalog.Stays p'.catalog
  queued : ∃ cs, p'.board.pending = (p.board.queueAll cs).pending

variable {p p' p'' : Program μ}

theorem Onward.trans (h : Onward p p') (h' : Onward p' p'') : Onward p p'' := by
  obtain ⟨cs, hcs⟩ := h.queued
  obtain ⟨ds, hds⟩ := h'.queued
  exact ⟨h.catalog.trans h'.catalog, cs ++ ds, by
    rw [hds, Board.queueAll_append, Board.queueAll_pending ds hcs]⟩

theorem Reads.onward (h : Reads p p') : Onward p p' := ⟨h.catalog, [], by rw [h.board]; rfl⟩

/-- Letting an action wait leads onward. -/
theorem queue_onward (tweakId : String) (action : Action) :
    (onDesk (Desk.queue tweakId action) : Task μ Bool).Along Onward := by
  intro p
  obtain ⟨d, cs, hreads, hd⟩ := Desk.queue_reads tweakId action (deskPart.get p)
  unfold onDesk
  rw [Part.on_lift, hd]
  exact ⟨hreads.catalog, cs, Board.queueAll_pending cs (congrArg Board.pending hreads.board)⟩

end Program

/-- The reports of progress change what waits by queueing alone, and leave a catalog that
lists its tweaks; to the session they may do anything. -/
def Control.OnlyQueues (c : Control μ) : Prop :=
  ∀ f, c.sink = some f → ∀ progress, (f progress).Along Program.Onward

theorem Control.OnlyQueues.within {c : Control μ} (h : c.OnlyQueues) : c.Within Program.Onward where
  trans := Program.Onward.trans
  reads := Program.Reads.onward
  sink := h

/-! ## Tables with different keys -/

/-- The one item with a key among items with different keys. -/
theorem filter_key {α κ : Type} [DecidableEq κ] {key : α → κ} {xs : List α} (h : (xs.map key).Nodup)
    (k : κ) : xs.filter (fun x => key x == k) = [] ∨
      ∃ x ∈ xs, key x = k ∧ xs.filter (fun x => key x == k) = [x] := by
  induction xs with
  | nil => exact .inl rfl
  | cons x xs ih =>
    rw [List.map_cons, List.nodup_cons] at h
    by_cases hk : key x = k
    · have hnone : xs.filter (fun x => key x == k) = [] := by
        refine List.filter_eq_nil_iff.mpr fun y hy hyk => h.1 ?_
        rw [hk, ← beq_iff_eq.mp hyk]
        exact List.mem_map_of_mem hy
      refine .inr ⟨x, List.mem_cons_self, hk, ?_⟩
      rw [List.filter_cons_of_pos (by simpa using hk), hnone]
    · rw [List.filter_cons_of_neg (by simpa using hk)]
      rcases ih h.2 with hnone | ⟨y, hy, hyk, hone⟩
      · exact .inl hnone
      · exact .inr ⟨y, List.mem_cons_of_mem _ hy, hyk, hone⟩

/-- What is made of some items has the keys of these items. -/
theorem filterMap_keys {α β κ : Type} {f : α → Option β} {key : β → κ} {origin : α → κ}
    (h : ∀ {x y}, f x = some y → key y = origin x) (xs : List α) :
    ((xs.filterMap f).map key).Sublist (xs.map origin) := by
  induction xs with
  | nil => exact .slnil
  | cons x xs ih =>
    rw [List.filterMap_cons, List.map_cons]
    cases hx : f x with
    | none => exact ih.cons _
    | some y =>
      dsimp only
      rw [List.map_cons, h hx]
      exact ih.cons_cons _

/-! ## Tweaks of changes -/

namespace Catalog

variable {c c' : Catalog} {cs : List Change}

/-- A catalog that has not been read knows no tweak. -/
theorem known?_unlisted (h : c.listed? = none) (tweakId : String) : c.known? tweakId = none := by
  rw [known?, h]
  rfl

theorem tweaksOf_keys (c : Catalog) (cs : List Change) :
    ((c.tweaksOf cs).map Tweak.key).Sublist (cs.map Change.key) :=
  filterMap_keys (fun h => known?_key h) cs

/-- The first tweaks of changes are the first ones later, too. -/
theorem Stays.tweaksOf_prefix (h : c.Stays c') {ts : List Tweak} (ht : ts <+: c.tweaksOf cs) :
    ts <+: c'.tweaksOf cs := by
  by_cases hl : c.listed? = none
  · have hnil : c.tweaksOf cs = [] :=
      List.filterMap_eq_nil_iff.mpr fun ch _ => known?_unlisted hl ch.tweakId
    rw [hnil] at ht
    rw [List.prefix_nil.mp ht]
    exact List.nil_prefix
  · exact (h hl).symm ▸ ht

end Catalog

theorem Round.entry?_some {S : Type} {x : Round S} {e : String × Result} (h : x.entry? = some e) :
    e.1 = x.tweak.id := by
  unfold Round.entry? at h
  split at h
  · cases h; rfl
  · cases h

namespace Program

/-- Every change waits with one of the two actions. -/
theorem waiting_perm (p : Program μ) : (p.waiting .apply ++ p.waiting .revert).Perm p.board.pending := by
  have hrevert : p.waiting .revert = p.board.pending.filter fun ch => !decide (ch.action = .apply) :=
    List.filter_congr fun ch _ => by cases ch.action <;> rfl
  rw [hrevert]
  exact List.filter_append_perm _ _

/-- Rounds about the tweaks of what waits are about different tweaks. -/
theorem rounds_keys {p : Program μ} (hp : p.board.AtMostOne) {c : Catalog}
    {applied reverted : List (Round (Program μ))}
    (happlied : applied.map Round.tweak <+: c.tweaksOf (p.waiting .apply))
    (hreverted : reverted.map Round.tweak <+: c.tweaksOf (p.waiting .revert)) :
    (((applied ++ reverted).filterMap Round.entry?).map fun e => Text.fold e.1).Nodup := by
  have htaken : ((p.waiting .apply ++ p.waiting .revert).map Change.key).Nodup :=
    (p.waiting_perm.map _).nodup_iff.mpr hp
  have hrounds : ((applied ++ reverted).map Round.tweak).Sublist
      (c.tweaksOf (p.waiting .apply ++ p.waiting .revert)) := by
    rw [List.map_append, Catalog.tweaksOf, List.filterMap_append]
    exact happlied.sublist.append hreverted.sublist
  have hkeys : (((applied ++ reverted).filterMap Round.entry?).map fun e => Text.fold e.1).Sublist
      ((applied ++ reverted).map fun x => x.tweak.key) :=
    filterMap_keys (fun h => congrArg Text.fold (Round.entry?_some h)) _
  refine (hkeys.trans ?_).nodup htaken
  have hmap := (hrounds.map Tweak.key).trans (c.tweaksOf_keys _)
  rw [List.map_map] at hmap
  exact hmap

end Program

namespace Service

open Program

variable {s : Service μ} {c : Control μ} {p p' : Program μ} {results : Assoc String Result}

/-- The program when what waited has been carried out and nothing has been put back. -/
def carriedOut (s : Service μ) (c : Control μ) (p : Program μ) : Program μ :=
  ((s.carryOut c (p.waiting .apply) (p.waiting .revert)).on (p.withPending [])).2

/-- What is queued while what waits is carried out. -/
def meanwhile (s : Service μ) (c : Control μ) (p : Program μ) : List Change :=
  (s.carriedOut c p).board.pending

/-- The results of the tweak with a folded identifier. -/
def resultsOf (key : String) (results : Assoc String Result) : Assoc String Result :=
  results.filter fun e => Text.fold e.1 == key

theorem mem_finished {key : String} : key ∈ finished results ↔
    ∃ e ∈ resultsOf key results, e.2.cancelled = false := by
  simp only [finished, resultsOf, List.mem_map, List.mem_filter, beq_iff_eq, Bool.not_eq_true']
  constructor
  · rintro ⟨e, ⟨he, hc⟩, hk⟩
    exact ⟨e, ⟨he, hk⟩, hc⟩
  · rintro ⟨e, ⟨he, hk⟩, hc⟩
    exact ⟨e, ⟨he, hc⟩, hk⟩

/-- The change ran: its tweak has one result, which is not cancelled, and of its changes only
those queued meanwhile still wait. -/
structure Ran (ch : Change) (t : Tweak) (results : Assoc String Result)
    (meanwhile waiting : List Change) : Prop where
  result : ∃ r, resultsOf ch.key results = [(t.id, r)] ∧ r.cancelled = false
  off : waiting.filter (Board.about ch.key) = meanwhile.filter (Board.about ch.key)

/-- The change is kept: its tweak has no result or one that is cancelled, and the change waits
as it was, or a change for its tweak that was queued meanwhile. -/
structure Kept (ch : Change) (t : Tweak) (results : Assoc String Result)
    (meanwhile waiting : List Change) : Prop where
  result : resultsOf ch.key results = [] ∨
    ∃ r, resultsOf ch.key results = [(t.id, r)] ∧ r.cancelled = true
  waits : ch ∈ waiting ∨ ∃ newer ∈ meanwhile, newer.key = ch.key ∧ newer ∈ waiting

theorem not_kept_of_ran {ch : Change} {t : Tweak} {meanwhile waiting : List Change}
    (hran : Ran ch t results meanwhile waiting) : ¬Kept ch t results meanwhile waiting := by
  intro hkept
  obtain ⟨r, hr, hc⟩ := hran.result
  rcases hkept.result with hnone | ⟨r', hr', hc'⟩
  · rw [hr] at hnone
    cases hnone
  · rw [hr] at hr'
    cases hr'
    rw [hc] at hc'
    cases hc'

theorem xor_of_ran {ch : Change} {t : Tweak} {meanwhile waiting : List Change}
    (h : Ran ch t results meanwhile waiting) :
    Xor (Ran ch t results meanwhile waiting) (Kept ch t results meanwhile waiting) :=
  .inl ⟨h, not_kept_of_ran h⟩

theorem xor_of_kept {ch : Change} {t : Tweak} {meanwhile waiting : List Change}
    (h : Kept ch t results meanwhile waiting) :
    Xor (Ran ch t results meanwhile waiting) (Kept ch t results meanwhile waiting) :=
  .inr ⟨h, fun hran => not_kept_of_ran hran h⟩

/-- What carrying out leads to is onward: only queueing has changed the board. -/
theorem carriedOut_onward (hc : c.OnlyQueues) : Onward (p.withPending []) (s.carriedOut c p) := by
  obtain ⟨applied, reverted, h⟩ := carryOut_course (s := s) hc.within Onward.catalog
    (p.waiting .apply) (p.waiting .revert) (p.withPending [])
  exact course_keeps (P := Onward) Onward.trans (fun _ _ => ⟨.refl _, [], rfl⟩) id
    (List.forall_mem_append.mpr ⟨h.applies.each, h.reverts.each⟩) h.course

theorem meanwhile_atMostOne (hc : c.OnlyQueues) : ((s.meanwhile c p).map Change.key).Nodup := by
  obtain ⟨cs, hcs⟩ := (carriedOut_onward (s := s) (p := p) hc).queued
  rw [meanwhile, hcs]
  exact Board.AtMostOne.queueAll (b := (p.withPending []).board) List.nodup_nil cs

/-- A call that returns has carried out what waits, with one result for each round, and has put
back what is left. -/
theorem applyPending_returns (hc : c.OnlyQueues) (hp : p.board.AtMostOne)
    (hrun : (s.applyPending c).on p = (.ok results, p')) : ∃ applied reverted,
      Course Onward (p.withPending []) (applied ++ reverted) (s.carriedOut c p) ∧
      s.engine.RoundsOf sessionPart c.cancelled .apply
        (p'.catalog.tweaksOf (p.waiting .apply)) applied ∧
      s.engine.RoundsOf sessionPart c.cancelled .revert
        (p'.catalog.tweaksOf (p.waiting .revert)) reverted ∧
      results = (applied ++ reverted).filterMap Round.entry? ∧
      p'.board.pending = ((p.waiting .apply ++ p.waiting .revert).filter (isLeft results p')).filter
        (fun ch => !(s.meanwhile c p).any (Board.about ch.key)) ++ s.meanwhile c p := by
  obtain ⟨applied, reverted, h⟩ := carryOut_course (s := s) hc.within Onward.catalog
    (p.waiting .apply) (p.waiting .revert) (p.withPending [])
  rw [applyPending_on] at hrun
  obtain ⟨r, q, hcarry, hsettle⟩ := Act.ok_of_on_bind hrun
  obtain ⟨rfl, hstay, hpending⟩ := settle_ok hsettle
  have hq : s.carriedOut c p = q := congrArg Prod.snd hcarry
  rw [hcarry] at h
  have happlied := hstay.tweaksOf_prefix h.applies.tweaks
  have hreverted := hstay.tweaksOf_prefix h.reverts.tweaks
  refine ⟨applied, reverted, hq ▸ h.course, { h.applies with tweaks := happlied },
    { h.reverts with tweaks := hreverted }, ?_, by rw [meanwhile, hq]; exact hpending⟩
  have hkeys := rounds_keys hp happlied hreverted
  rw [List.filterMap_append] at hkeys ⊢
  have hids : (Assoc.keys (applied.filterMap Round.entry? ++ reverted.filterMap Round.entry?)).Nodup := by
    refine List.Nodup.of_map Text.fold ?_
    rw [Assoc.keys, List.map_map]
    exact hkeys
  have hsplit := hids
  rw [Assoc.keys, List.map_append, List.nodup_append] at hsplit
  rw [(h.results results rfl).1, Assoc.ofList_of_nodup hsplit.1, Assoc.ofList_of_nodup hsplit.2.1]
  exact Assoc.update_append hids

/-- The results of a known tweak that waited are none or one. -/
theorem resultsOf_known {applied reverted : List (Round (Program μ))} (hp : p.board.AtMostOne)
    {catalog : Catalog} (happlied : applied.map Round.tweak <+: catalog.tweaksOf (p.waiting .apply))
    (hreverted : reverted.map Round.tweak <+: catalog.tweaksOf (p.waiting .revert))
    {ch : Change} {t : Tweak} (ht : catalog.known? ch.tweakId = some t) :
    resultsOf ch.key ((applied ++ reverted).filterMap Round.entry?) = [] ∨
      ∃ r, resultsOf ch.key ((applied ++ reverted).filterMap Round.entry?) = [(t.id, r)] := by
  rcases filter_key (rounds_keys hp happlied hreverted) ch.key with hnone | ⟨e, he, hkey, hone⟩
  · exact .inl hnone
  · refine .inr ⟨e.2, ?_⟩
    obtain ⟨x, hx, hentry⟩ := List.mem_filterMap.mp he
    have hid := Round.entry?_some hentry
    have hknown : ∃ ch' : Change, catalog.known? ch'.tweakId = some x.tweak := by
      rcases List.mem_append.mp hx with hx | hx
      · obtain ⟨ch', -, hch'⟩ :=
          List.mem_filterMap.mp (happlied.subset (List.mem_map_of_mem hx))
        exact ⟨ch', hch'⟩
      · obtain ⟨ch', -, hch'⟩ :=
          List.mem_filterMap.mp (hreverted.subset (List.mem_map_of_mem hx))
        exact ⟨ch', hch'⟩
    obtain ⟨ch', hch'⟩ := hknown
    have hsame : Text.fold ch'.tweakId = Text.fold ch.tweakId :=
      (Catalog.known?_key hch').symm.trans ((congrArg Text.fold hid.symm).trans hkey)
    rw [Catalog.known?_congr hsame, ht] at hch'
    cases hch'
    rw [resultsOf, hone, ← hid]

/-! ## Conservation -/

variable {ch : Change} {t : Tweak} {taken meanwhile : List Change}

/-- A change whose tweak was run to its end is off the board. -/
theorem ran_of_finished {r : Result} (hone : resultsOf ch.key results = [(t.id, r)])
    (hr : r.cancelled = false) : Ran ch t results meanwhile
      ((taken.filter (isLeft results p')).filter
        (fun x => !meanwhile.any (Board.about x.key)) ++ meanwhile) := by
  refine ⟨⟨r, hone, hr⟩, ?_⟩
  have hfinished : ch.key ∈ finished results :=
    mem_finished.mpr ⟨_, hone ▸ List.mem_cons_self, hr⟩
  rw [List.filter_append, List.filter_eq_nil_iff.mpr, List.nil_append]
  intro x hx habout
  have hleft := (List.mem_filter.mp (List.mem_filter.mp hx).1).2
  rw [isLeft, show Text.fold x.tweakId = ch.key from Board.about_iff.mp habout,
    List.contains_iff_mem.mpr hfinished] at hleft
  cases hleft

/-- A change whose tweak was not run to its end, but is known, waits. -/
theorem kept_of_unfinished (hch : ch ∈ taken) (hknown : p'.catalog.known? ch.tweakId = some t)
    (hresult : resultsOf ch.key results = [] ∨
      ∃ r, resultsOf ch.key results = [(t.id, r)] ∧ r.cancelled = true) :
    Kept ch t results meanwhile ((taken.filter (isLeft results p')).filter
      (fun x => !meanwhile.any (Board.about x.key)) ++ meanwhile) := by
  refine ⟨hresult, ?_⟩
  have hunfinished : ch.key ∉ finished results := by
    rw [mem_finished]
    rintro ⟨e, he, hc⟩
    rcases hresult with hnone | ⟨r, hone, hr⟩
    · rw [hnone] at he
      cases he
    · rw [hone, List.mem_singleton] at he
      rw [he, hr] at hc
      cases hc
  have hleft : isLeft results p' ch = true := by
    rw [isLeft, hknown, Bool.and_eq_true, Bool.not_eq_true', ← Bool.not_eq_true,
      List.contains_iff_mem]
    exact ⟨hunfinished, rfl⟩
  cases hnewer : meanwhile.any (Board.about ch.key) with
  | true =>
    obtain ⟨newer, hmem, habout⟩ := List.any_eq_true.mp hnewer
    exact .inr ⟨newer, hmem, Board.about_iff.mp habout, List.mem_append_right _ hmem⟩
  | false =>
    refine .inl (List.mem_append_left _ (List.mem_filter.mpr
      ⟨List.mem_filter.mpr ⟨hch, hleft⟩, ?_⟩))
    rw [hnewer]
    rfl

/-- What is put back and what was queued meanwhile are about different tweaks. -/
theorem returning_nodup (htaken : (taken.map Change.key).Nodup)
    (hmeanwhile : (meanwhile.map Change.key).Nodup) (keep : Change → Bool) :
    (((taken.filter keep).filter (fun x => !meanwhile.any (Board.about x.key)) ++ meanwhile).map
      Change.key).Nodup := by
  rw [List.map_append, List.nodup_append]
  refine ⟨((List.filter_sublist.trans List.filter_sublist).map _).nodup htaken, hmeanwhile,
    fun k hk k' hk' hsame => ?_⟩
  obtain ⟨x, hx, rfl⟩ := List.mem_map.mp hk
  obtain ⟨y, hy, rfl⟩ := List.mem_map.mp hk'
  have hnone := (List.mem_filter.mp hx).2
  rw [List.any_eq_true.mpr ⟨y, hy, Board.about_iff.mpr hsame.symm⟩] at hnone
  cases hnone

/-- **Waiting changes are conserved.**  When carrying out what waits returns, every change whose
tweak is known either ran or is kept, never both, no tweak has two changes, and the rounds were
the applies and then the reverts, each in the order of the board. -/
theorem applyPending_conserves (hc : c.OnlyQueues) (hp : p.board.AtMostOne)
    (hrun : (s.applyPending c).on p = (.ok results, p')) :
    (∀ ch ∈ p.board.pending, ∀ t, p'.catalog.known? ch.tweakId = some t →
      Xor (Ran ch t results (s.meanwhile c p) p'.board.pending)
        (Kept ch t results (s.meanwhile c p) p'.board.pending)) ∧
    p'.board.AtMostOne ∧
    ∃ applied reverted,
      Course Onward (p.withPending []) (applied ++ reverted) (s.carriedOut c p) ∧
      s.engine.RoundsOf sessionPart c.cancelled .apply
        (p'.catalog.tweaksOf (p.waiting .apply)) applied ∧
      s.engine.RoundsOf sessionPart c.cancelled .revert
        (p'.catalog.tweaksOf (p.waiting .revert)) reverted ∧
      results = (applied ++ reverted).filterMap Round.entry? := by
  obtain ⟨applied, reverted, hcourse, happlied, hreverted, hresults, hpending⟩ :=
    applyPending_returns hc hp hrun
  refine ⟨fun ch hch t ht => ?_, ?_, applied, reverted, hcourse, happlied, hreverted, hresults⟩
  · have htaken : ch ∈ p.waiting .apply ++ p.waiting .revert := p.waiting_perm.mem_iff.mpr hch
    have hone := resultsOf_known hp happlied.tweaks hreverted.tweaks ht
    rw [← hresults] at hone
    rw [hpending]
    rcases hone with hnone | ⟨r, hone⟩
    · exact xor_of_kept (kept_of_unfinished htaken ht (.inl hnone))
    · cases hr : r.cancelled with
      | true => exact xor_of_kept (kept_of_unfinished htaken ht (.inr ⟨r, hone, hr⟩))
      | false => exact xor_of_ran (ran_of_finished hone hr)
  · rw [Board.AtMostOne, hpending]
    exact returning_nodup ((p.waiting_perm.map _).nodup_iff.mpr hp) (meanwhile_atMostOne hc) _

end Service

/-! ## Samples -/

/-- A tweak that sets a value. -/
def sampleSetting (id : String) : Tweak :=
  { id
    name := .text id
    operations :=
      { registry := [{ hive := .currentUser, keyPath := .text "Demo", value := .int 1
                       valueName := .text id, action := .setValue }] } }

/-- A board with changes that wait. -/
def sampleBoard (pending : List (String × Action)) : Board :=
  { ttl := 0, pending := pending.map fun e => ⟨e.1, .text e.1, e.2, ⟨0⟩⟩ }

/-- A program with three tweaks, of which two are to be applied and one is to be reverted. -/
def sampleProgram : Program Machine :=
  { config := .default "/"
    catalog := .memory [sampleSetting "a", sampleSetting "b", sampleSetting "c"]
    board := sampleBoard [("a", .apply), ("b", .revert), ("c", .apply)]
    session := { host := { machine := {} } } }

/-- A service that works on a machine. -/
def sampleService : Service Machine :=
  { engine := { mutator := Machine.mutator }
    detector := { probe := Machine.probe }
    restore := ⟨false, false⟩ }

/-- Reports of progress that queue a revert in a phase; once something is queued, the run is
cancelled. -/
def sampleControl (phase tweakId : String) : Control Machine :=
  { sink := some fun progress =>
      if progress.phase = phase then discard (Program.onDesk (Desk.queue tweakId .revert)) else pure ()
    cancelled := fun p => !p.board.pending.isEmpty }

theorem sampleControl_onlyQueues (phase tweakId : String) :
    (sampleControl phase tweakId).OnlyQueues := by
  rintro f hf progress p
  cases hf
  dsimp only
  split
  · rw [Act.on_discard]
    exact Program.queue_onward tweakId .revert p
  · exact (Program.Reads.refl p).onward

/-- The changes that wait on a board, in short. -/
def Board.brief (b : Board) : List (String × Action) :=
  b.pending.map fun ch => (ch.tweakId, ch.action)

/-- When the first tweak has been applied, its revert is queued and the run is cancelled: the
other changes are kept. -/
theorem sample_conserved :
    (sampleControl "Completed" "A").OnlyQueues ∧ sampleProgram.board.AtMostOne ∧
    ∃ results p', (sampleService.applyPending (sampleControl "Completed" "A")).on sampleProgram =
        (.ok results, p') ∧
      (∀ ch ∈ sampleProgram.board.pending, ∀ t, p'.catalog.known? ch.tweakId = some t →
        Xor (Service.Ran ch t results
            (sampleService.meanwhile (sampleControl "Completed" "A") sampleProgram) p'.board.pending)
          (Service.Kept ch t results
            (sampleService.meanwhile (sampleControl "Completed" "A") sampleProgram)
            p'.board.pending)) ∧
      p'.board.brief = [("c", .apply), ("b", .revert), ("a", .revert)] := by
  have hc := sampleControl_onlyQueues "Completed" "A"
  have hp : sampleProgram.board.AtMostOne := by decide
  have hcheck : (sampleService.applyPending (sampleControl "Completed" "A")).succeeds sampleProgram
      (fun _ p' => p'.board.brief == [("c", .apply), ("b", .revert), ("a", .revert)]) = true := by
    decide +kernel
  obtain ⟨results, p', hrun, hbrief⟩ := Act.of_succeeds hcheck
  exact ⟨hc, hp, results, p', hrun, (Service.applyPending_conserves hc hp hrun).1,
    beq_iff_eq.mp hbrief⟩

namespace Service

variable {s : Service μ} {c : Control μ} {p p' : Program μ} {results : Assoc String Result}

open Program

/-! ## Calls that fail -/

/-- Without reports of progress nothing is queued meanwhile. -/
theorem meanwhile_of_no_sink (hnone : c.sink = none) : s.meanwhile c p = [] := by
  let Q : Program μ → Program μ → Prop := fun p p' =>
    p.catalog.Stays p'.catalog ∧ p'.board.pending = p.board.pending
  have hwithin : c.Within Q :=
    { trans := fun h h' => ⟨h.1.trans h'.1, h'.2.trans h.2⟩
      reads := fun h => ⟨h.catalog, congrArg Board.pending h.board⟩
      sink := fun f hf => by rw [hnone] at hf; cases hf }
  obtain ⟨applied, reverted, h⟩ := carryOut_course (s := s) hwithin And.left
    (p.waiting .apply) (p.waiting .revert) (p.withPending [])
  have hsame := course_keeps (P := Q) hwithin.trans (fun _ _ => ⟨.refl _, rfl⟩) id
    (List.forall_mem_append.mpr ⟨h.applies.each, h.reverts.each⟩) h.course
  exact hsame.2

/-- **A call that fails puts nothing back.**  Whatever it had carried out until then, the
changes that wait afterwards are those that were queued while it ran, so without reports of
progress there are none. -/
theorem applyPending_failed (hc : c.OnlyQueues) {f : Failure}
    (hrun : (s.applyPending c).on p = (.error f, p')) :
    p'.board.pending = s.meanwhile c p ∧
    (∃ cs, p'.board.pending = ((p.withPending []).board.queueAll cs).pending) ∧
    (c.sink = none → p'.board.pending = []) ∧
    ∃ applied reverted, s.Carries c Onward (p.waiting .apply) (p.waiting .revert) applied reverted
      (p.withPending [])
      ((s.carryOut c (p.waiting .apply) (p.waiting .revert)).on (p.withPending [])) := by
  have hpending : p'.board.pending = s.meanwhile c p := by
    rw [applyPending_on, Act.on_bind] at hrun
    unfold meanwhile carriedOut
    rcases hcarry : (s.carryOut c (p.waiting .apply) (p.waiting .revert)).on (p.withPending []) with
      ⟨g | r, q⟩ <;> rw [hcarry] at hrun
    · cases hrun
      rfl
    · exact congrArg Board.pending (settle_failed hrun).board
  refine ⟨hpending, ?_, fun hnone => hpending.trans (meanwhile_of_no_sink hnone), ?_⟩
  · rw [hpending]
    exact (carriedOut_onward hc).queued
  · exact carryOut_course hc.within Onward.catalog _ _ _

end Service

/-- A program with two tweaks that are to be applied; the snapshot file of the first one holds
a list. -/
def brokenProgram : Program Machine :=
  { sampleProgram with
    board := sampleBoard [("a", .apply), ("b", .apply)]
    session :=
      { host := { machine := {}, disk := { entries := [(["a.json"], .file (Encoding.utf8 "[]"))] } }
        store := some
          { directory := ⟨.slash, []⟩
            index := [("a", ⟨.text "a", .text "a", .text "", .text "/a.json", .int 1⟩)] } } }

/-- What reading such a snapshot gives. -/
def brokenFailure : Failure := .noAttribute "'list' object has no attribute 'get'"

theorem sample_failed :
    (sampleControl "Applying" "B").OnlyQueues ∧
    ∃ p', (sampleService.applyPending (sampleControl "Applying" "B")).on brokenProgram =
        (.error brokenFailure, p') ∧
      p'.board.pending =
        sampleService.meanwhile (sampleControl "Applying" "B") brokenProgram ∧
      p'.board.brief = [("b", .revert)] := by
  have hc := sampleControl_onlyQueues "Applying" "B"
  have hcheck : (sampleService.applyPending (sampleControl "Applying" "B")).fails brokenProgram
      (fun f p' => f == brokenFailure && p'.board.brief == [("b", .revert)]) = true := by
    decide +kernel
  obtain ⟨f, p', hrun, htest⟩ := Act.of_fails hcheck
  obtain ⟨hf, hbrief⟩ := Bool.and_eq_true_iff.mp htest
  obtain rfl := beq_iff_eq.mp hf
  exact ⟨hc, p', hrun, (Service.applyPending_failed hc hrun).1, beq_iff_eq.mp hbrief⟩

/-- A snapshot file that holds a list ends the call before any operation has run, and both
changes are gone. -/
theorem sample_changes_lost :
    brokenProgram.board.brief = [("a", .apply), ("b", .apply)] ∧
    ∃ p', (sampleService.applyPending {}).on brokenProgram = (.error brokenFailure, p') ∧
      p'.session.host.writes.length = 0 ∧ p'.board.brief = [] := by
  have hcheck : (sampleService.applyPending {}).fails brokenProgram (fun f p' =>
      f == brokenFailure && (p'.session.host.writes.length == 0 && p'.board.brief == [])) = true := by
    decide +kernel
  obtain ⟨f, p', hrun, htest⟩ := Act.of_fails hcheck
  obtain ⟨hf, hrest⟩ := Bool.and_eq_true_iff.mp htest
  obtain ⟨hwrites, hbrief⟩ := Bool.and_eq_true_iff.mp hrest
  obtain rfl := beq_iff_eq.mp hf
  exact ⟨rfl, p', hrun, beq_iff_eq.mp hwrites, beq_iff_eq.mp hbrief⟩

end TweakEngine
