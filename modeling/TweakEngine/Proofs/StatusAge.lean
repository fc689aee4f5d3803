/-
# How old statuses may be

A history is a row of visits to a desk that has forgotten everything (`History`): scans, looks
at one tweak, lists, forgetting, and whatever else happens to the system, the catalog, the
clock and the waiting changes in between.  Every visit brings its own watcher, so scans may
find something else each time, or fail.

A list or a look at one tweak gives only what the same visit finds, or what an earlier one
found, after everything was last forgotten, and no earlier than in a scan that ended less than
the permitted time ago (`History.statuses_recent`).  A list alone may also give what is older,
when its own scan fails.  Every run of tweaks that returns ends with a desk that has forgotten
everything, where a new history begins.

The reason is one invariant (`History.Traced`): each status that is kept was found by a visit
since the last forgetting, and if the time of a scan is kept, by that scan or a later visit.
-/

import TweakEngine.Proofs.PendingChanges

namespace TweakEngine

variable {μ : Type}

/-! ## What the calls of a desk do -/

namespace Board

variable {b : Board} {now : Moment} {key : String} {st : Status}

/-- The board knows no status. -/
structure Blank (b : Board) : Prop where
  statuses : b.statuses = []
  lastScan : b.lastScan = none

/-- The status that a board gives without another look. -/
def recalled (b : Board) (now : Moment) (key : String) : Option Status :=
  if b.isFresh now then Assoc.get? key b.statuses else none

theorem invalidate_blank (b : Board) : b.invalidate.Blank := ⟨rfl, rfl⟩

theorem isFresh_iff : b.isFresh now = true ↔ b.statuses ≠ [] ∧
    ∃ scanned, b.lastScan = some scanned ∧ now.micros - scanned.micros < b.ttl := by
  unfold isFresh
  cases b.lastScan with
  | none => simp
  | some scanned => simp

theorem recalled_eq_some : b.recalled now key = some st ↔
    b.isFresh now = true ∧ Assoc.get? key b.statuses = some st := by
  rw [recalled, Option.ite_none_right_eq_some]

end Board

namespace Desk

variable {w : Watcher μ} {d d' : Desk μ} {found : Assoc String Status} {f : Failure}
  {tweakId : String} {st : Status} {items : List Item}

/-- Looks at all tweaks. -/
def scan (w : Watcher μ) : Act (Desk μ) (Assoc String Status) := do
  let tweaks ← onShelf Catalog.tweaks
  onHost (w.evaluateBatch tweaks)

/-- Looks at one tweak, if the catalog has it. -/
def look (w : Watcher μ) (tweakId : String) : Act (Desk μ) (Option Status) := do
  match ← onShelf (Catalog.find? tweakId) with
  | none => return none
  | some t => return some (← onHost (w.evaluate t))

/-- What was found, under the folded identifiers. -/
def folded (found : Assoc String Status) : Assoc String Status :=
  Assoc.ofList (found.map fun e => (Text.fold e.1, e.2))

/-- The present moment of a desk. -/
def clock (d : Desk μ) : Moment := d.shelf.host.clock

theorem mem_of_folded {key : String} (h : Assoc.get? key (folded found) = some st) :
    ∃ id, Text.fold id = key ∧ (id, st) ∈ found := by
  obtain ⟨e, he, hkey⟩ := List.mem_map.mp (Assoc.mem_of_get?_ofList h)
  cases hkey
  exact ⟨e.1, rfl, he⟩

/-- Looking at all tweaks leaves the board. -/
theorem scan_board (w : Watcher μ) (d : Desk μ) : ((scan w).on d).2.board = d.board :=
  Act.Keeps.bind (f := Desk.board) (fun _ => rfl) (fun _ _ => rfl) d

/-- **A scan that succeeds** takes the place of what was kept. -/
theorem refresh_of_ok (h : (scan w).on d = (.ok found, d')) : ∃ shelf, (refresh w).on d =
    (.ok (), ⟨{ d.board with statuses := folded found, lastScan := some d'.clock }, shelf⟩) := by
  have hboard := scan_board w d
  rw [h] at hboard
  have hattempt : (scan w).attempt.on d = (.ok (.ok found), d') := by rw [Act.on_attempt, h]
  rw [← hboard]
  exact ⟨_, Act.on_bind_of_ok hattempt⟩

/-- **A scan that fails** leaves what was kept. -/
theorem refresh_of_error (h : (scan w).on d = (.error f, d')) :
    ∃ shelf, (refresh w).on d = (.ok (), ⟨d.board, shelf⟩) := by
  have hboard := scan_board w d
  rw [h] at hboard
  have hattempt : (scan w).attempt.on d = (.ok (.error f), d') := by rw [Act.on_attempt, h]
  rw [← hboard]
  exact ⟨_, Act.on_bind_of_ok hattempt⟩

/-- All tweaks with what is kept of them. -/
def shown : Act (Desk μ) (List Item) := do
  let tweaks ← onShelf Catalog.tweaks
  let board ← Act.view Desk.board
  let now ← onHost Host.now
  return tweaks.map fun t =>
    { tweak := t
      status := (Assoc.get? t.key board.statuses).getD (Status.notScanned t.id now)
      pending := board.waiting? t.key }

theorem refresh_returns (w : Watcher μ) (d : Desk μ) : ((refresh w).on d).1 = .ok () := by
  rcases hscan : (scan w).on d with ⟨f | found, d'⟩
  · obtain ⟨shelf, h⟩ := refresh_of_error hscan
    rw [h]
  · obtain ⟨shelf, h⟩ := refresh_of_ok hscan
    rw [h]

/-- **A list** shows what is kept, which comes from a new scan unless it is fresh. -/
theorem items_on (w : Watcher μ) (d : Desk μ) : (Desk.items w).on d =
    shown.on (if d.board.isFresh d.clock then d else ((refresh w).on d).2) := by
  have hfresh : (isFresh : Act (Desk μ) Bool).on d = (.ok (d.board.isFresh d.clock), d) := rfl
  unfold items
  rw [Act.on_bind_of_ok hfresh]
  cases d.board.isFresh d.clock with
  | true => rfl
  | false => exact Act.on_bind_of_ok (Prod.ext (refresh_returns w d) rfl)

theorem shown_board (d : Desk μ) : (shown.on d).2.board = d.board :=
  Act.Keeps.bind (f := Desk.board) (fun _ => rfl) (fun _ => Act.Keeps.bind (Act.Keeps.view _)
    fun _ => Act.Keeps.bind (fun _ => rfl) fun _ => Act.Keeps.pure _) d

theorem shown_ok (h : shown.on d = (.ok items, d')) : d'.board = d.board ∧
    ∀ i ∈ items, i.status = (Assoc.get? i.tweak.key d.board.statuses).getD
      (Status.notScanned i.tweak.id d'.clock) := by
  obtain ⟨ts, d₁, hts, h⟩ := Act.ok_of_on_bind h
  obtain ⟨sh, -, rfl⟩ := Part.ok_of_on_lift hts
  cases h
  refine ⟨rfl, fun i hi => ?_⟩
  obtain ⟨t, -, rfl⟩ := List.mem_map.mp hi
  rfl

/-- Looking at one tweak leaves the board. -/
theorem look_board (w : Watcher μ) (tweakId : String) (d : Desk μ) :
    ((look w tweakId).on d).2.board = d.board := by
  refine Act.Keeps.bind (f := Desk.board) (fun _ => rfl) (fun t? => ?_) d
  cases t? with
  | none => exact .pure _
  | some t => exact .bind (f := Desk.board) (fun _ => rfl) fun _ => .pure _

/-- There is nothing to look at if the catalog does not know the tweak. -/
theorem look_none (h : (look w tweakId).on d = (.ok none, d')) :
    d'.shelf.catalog.known? tweakId = none := by
  obtain ⟨t?, d₁, hfind, h⟩ := Act.ok_of_on_bind h
  obtain ⟨sh, hshelf, rfl⟩ := Part.ok_of_on_lift hfind
  cases t? with
  | none =>
    cases h
    exact (Catalog.find?_answers hshelf).2.symm
  | some t =>
    obtain ⟨st, d₂, -, h⟩ := Act.ok_of_on_bind h
    cases h

/-- The status of a tweak that the catalog does not have. -/
def missing (tweakId : String) (now : Moment) : Status :=
  { tweakId, message := "Tweak not found", lastChecked := now }

/-- Looks at one tweak and keeps what is found. -/
def renew (w : Watcher μ) (tweakId : String) : Act (Desk μ) Status := do
  match ← onShelf (Catalog.find? tweakId) with
  | none => return missing tweakId (← onHost Host.now)
  | some t =>
    let status ← onHost (w.evaluate t)
    changeBoard fun b => { b with statuses := Assoc.put (Text.fold tweakId) status b.statuses }
    return status

theorem renew_on (w : Watcher μ) (tweakId : String) (d : Desk μ) :
    (renew w tweakId).on d = match (look w tweakId).on d with
      | (.ok (some st), d') => (.ok st, { d' with board :=
          { d'.board with statuses := Assoc.put (Text.fold tweakId) st d'.board.statuses } })
      | (.ok none, d') => (.ok (missing tweakId d'.clock), d')
      | (.error f, d') => (.error f, d') := by
  rw [renew, look, Act.on_bind, Act.on_bind]
  rcases (onShelf (Catalog.find? tweakId)).on d with ⟨f | t?, d₁⟩
  · rfl
  · cases t? with
    | none => rfl
    | some t =>
      dsimp only
      rw [Act.on_bind, Act.on_bind]
      rcases (onHost (w.evaluate t)).on d₁ with ⟨f | st, d₂⟩ <;> rfl

/-- **The status of one tweak** is what is kept, if that is fresh.  Otherwise the tweak is looked
at. -/
theorem statusOf_on (w : Watcher μ) (tweakId : String) (d : Desk μ) :
    (statusOf w tweakId).on d = match d.board.recalled d.clock (Text.fold tweakId) with
      | some st => (.ok st, d)
      | none => (renew w tweakId).on d := by
  have hkept : (boardPart.lift (Act.view fun b => Assoc.get? (Text.fold tweakId) b.statuses) :
      Act (Desk μ) _).on d = (.ok (Assoc.get? (Text.fold tweakId) d.board.statuses), d) := rfl
  have hfresh : (isFresh : Act (Desk μ) Bool).on d = (.ok (d.board.isFresh d.clock), d) := rfl
  unfold statusOf
  rw [Act.on_bind_of_ok hkept, Act.on_bind_of_ok hfresh, Board.recalled]
  cases Assoc.get? (Text.fold tweakId) d.board.statuses <;>
    cases d.board.isFresh d.clock <;> rfl

end Desk

/-! ## Visits -/

/-- What happens to a desk. -/
inductive Visit (μ : Type)
  /-- All tweaks are looked at. -/
  | refresh (w : Watcher μ)
  /-- What is kept is forgotten. -/
  | invalidate
  /-- All tweaks are listed with their statuses. -/
  | items (w : Watcher μ)
  /-- The status of one tweak is asked for. -/
  | statusOf (w : Watcher μ) (tweakId : String)
  /-- Time passes, the system or the catalog changes, or changes are queued or taken. -/
  | elsewhere (change : Desk μ → Shelf μ × List Change)

namespace Visit

/-- The desk after a visit. -/
def after : Visit μ → Desk μ → Desk μ
  | refresh w, d => ((Desk.refresh w).on d).2
  | invalidate, d => { d with board := d.board.invalidate }
  | items w, d => ((Desk.items w).on d).2
  | statusOf w tweakId, d => ((Desk.statusOf w tweakId).on d).2
  | elsewhere change, d => ⟨{ d.board with pending := (change d).2 }, (change d).1⟩

/-- The visit looks at all tweaks. -/
inductive Scans : Visit μ → Desk μ → Watcher μ → Prop
  | refresh {w : Watcher μ} {d : Desk μ} : Scans (.refresh w) d w
  | items {w : Watcher μ} {d : Desk μ} (stale : d.board.isFresh d.clock = false) : Scans (.items w) d w

/-- The visit looks at all tweaks, and has found all statuses at a moment. -/
def ScansUntil (v : Visit μ) (d : Desk μ) (done : Moment) : Prop :=
  ∃ w found d', v.Scans d w ∧ (Desk.scan w).on d = (.ok found, d') ∧ d'.clock = done

/-- The visit looks at all tweaks, which fails. -/
def ScanFails (v : Visit μ) (d : Desk μ) : Prop :=
  ∃ w f d', v.Scans d w ∧ (Desk.scan w).on d = (.error f, d')

/-- The visit finds a status for the tweak with a folded identifier, in a scan or in a look at
this tweak. -/
inductive Finds : Visit μ → Desk μ → String → Status → Prop
  | scan {v w d d' found tweakId st} (h : Scans v d w)
      (hscan : (Desk.scan w).on d = (.ok found, d')) (hmem : (tweakId, st) ∈ found) :
      Finds v d (Text.fold tweakId) st
  | look {w tweakId d d' st} (unknown : d.board.recalled d.clock (Text.fold tweakId) = none)
      (hlook : (Desk.look w tweakId).on d = (.ok (some st), d')) :
      Finds (.statusOf w tweakId) d (Text.fold tweakId) st

/-- **What a visit does to the statuses.**  It keeps them, forgets them, puts those of a scan in
their place, or puts one that it finds among them. -/
inductive Does (v : Visit μ) (d : Desk μ) (b : Board) : Prop
  | keep (hv : v ≠ .invalidate) (statuses : b.statuses = d.board.statuses)
      (lastScan : b.lastScan = d.board.lastScan)
  | forget (blank : b.Blank)
  | scan {w found d'} (h : v.Scans d w) (hscan : (Desk.scan w).on d = (.ok found, d'))
      (statuses : b.statuses = Desk.folded found) (lastScan : b.lastScan = some d'.clock)
  | look {key st} (hv : v ≠ .invalidate) (h : v.Finds d key st)
      (statuses : b.statuses = Assoc.put key st d.board.statuses)
      (lastScan : b.lastScan = d.board.lastScan)

variable {v : Visit μ} {w : Watcher μ} {d : Desk μ}

theorem does_of_scans (h : v.Scans d w) (hv : v ≠ .invalidate) :
    v.Does d ((Desk.refresh w).on d).2.board := by
  rcases hscan : (Desk.scan w).on d with ⟨f | found, d'⟩
  · obtain ⟨shelf, hrefresh⟩ := Desk.refresh_of_error hscan
    rw [hrefresh]
    exact .keep hv rfl rfl
  · obtain ⟨shelf, hrefresh⟩ := Desk.refresh_of_ok hscan
    rw [hrefresh]
    exact .scan h hscan rfl rfl

theorem does (v : Visit μ) (d : Desk μ) : v.Does d (v.after d).board := by
  cases v with
  | refresh w => exact does_of_scans .refresh nofun
  | invalidate => exact .forget d.board.invalidate_blank
  | items w =>
    rw [after, Desk.items_on, Desk.shown_board]
    cases hfresh : d.board.isFresh d.clock with
    | true => exact .keep nofun rfl rfl
    | false => exact does_of_scans (.items hfresh) nofun
  | statusOf w tweakId =>
    rw [after, Desk.statusOf_on]
    have hboard := Desk.look_board w tweakId d
    cases hrecall : d.board.recalled d.clock (Text.fold tweakId) with
    | some st => exact .keep nofun rfl rfl
    | none =>
      dsimp only
      rw [Desk.renew_on]
      rcases hlook : (Desk.look w tweakId).on d with ⟨f | _ | st, d'⟩ <;> rw [hlook] at hboard
      · exact .keep nofun (congrArg Board.statuses hboard) (congrArg Board.lastScan hboard)
      · exact .keep nofun (congrArg Board.statuses hboard) (congrArg Board.lastScan hboard)
      · have hlast : d'.board.lastScan = d.board.lastScan := congrArg Board.lastScan hboard
        exact .look nofun (.look hrecall hlook) (by rw [← hboard]) hlast
  | elsewhere change => exact .keep nofun rfl rfl

theorem refresh_ttl (w : Watcher μ) (d : Desk μ) :
    ((Desk.refresh w).on d).2.board.ttl = d.board.ttl := by
  rcases hscan : (Desk.scan w).on d with ⟨f | found, d'⟩
  · obtain ⟨shelf, hrefresh⟩ := Desk.refresh_of_error hscan
    rw [hrefresh]
  · obtain ⟨shelf, hrefresh⟩ := Desk.refresh_of_ok hscan
    rw [hrefresh]

/-- No visit changes how long a scan stays fresh. -/
theorem after_ttl (v : Visit μ) (d : Desk μ) : (v.after d).board.ttl = d.board.ttl := by
  cases v with
  | refresh w => exact refresh_ttl w d
  | invalidate => rfl
  | items w =>
    rw [after, Desk.items_on, Desk.shown_board]
    split
    · rfl
    · exact refresh_ttl w d
  | statusOf w tweakId =>
    rw [after, Desk.statusOf_on]
    have hboard := Desk.look_board w tweakId d
    split
    · rfl
    · rw [Desk.renew_on]
      rcases hlook : (Desk.look w tweakId).on d with ⟨f | _ | st, d'⟩
      all_goals
        rw [hlook] at hboard
        exact (congrArg Board.ttl hboard :)
  | elsewhere change => rfl

/-- What is kept after a scan was found by it. -/
theorem finds_of_folded {d' : Desk μ} {found : Assoc String Status} {key : String} {st : Status}
    (h : v.Scans d w) (hscan : (Desk.scan w).on d = (.ok found, d'))
    (hkey : Assoc.get? key (Desk.folded found) = some st) : v.Finds d key st := by
  obtain ⟨tweakId, rfl, hmem⟩ := Desk.mem_of_folded hkey
  exact .scan h hscan hmem

end Visit

/-! ## Histories -/

/-- Visits to a desk, one after the other, beginning with a desk that has forgotten everything. -/
structure History (μ : Type) where
  start : Desk μ
  visit : Nat → Visit μ
  blank : start.board.Blank

namespace History

variable {H : History μ} {j k m n : Nat} {key : String} {st : Status} {scanned : Moment}

/-- The desk before the visit with a number. -/
def desk (H : History μ) : Nat → Desk μ
  | 0 => H.start
  | n + 1 => (H.visit n).after (H.desk n)

/-- The visit with a number finds a status. -/
def Finds (H : History μ) (n : Nat) (key : String) (st : Status) : Prop :=
  (H.visit n).Finds (H.desk n) key st

/-- Nothing is forgotten after one visit and before another. -/
def Lasting (H : History μ) (j n : Nat) : Prop := ∀ m, j < m → m < n → H.visit m ≠ .invalidate

/-- **A status is remembered**: a visit found it, and nothing was forgotten since. -/
def Remembers (H : History μ) (n : Nat) (key : String) (st : Status) : Prop :=
  ∃ j < n, H.Finds j key st ∧ H.Lasting j n

/-- **A status is known since a scan**: the scan or a later visit found it, the scan was done at
a moment, and nothing was forgotten since. -/
def KnownSince (H : History μ) (n : Nat) (scanned : Moment) (key : String) (st : Status) : Prop :=
  ∃ k j, k ≤ j ∧ j < n ∧ (H.visit k).ScansUntil (H.desk k) scanned ∧ H.Finds j key st ∧
    H.Lasting k n

/-- **A status is recent** at a visit: it is known since a scan that was done less than the
permitted time before. -/
def Recent (H : History μ) (n : Nat) (key : String) (st : Status) : Prop :=
  ∃ scanned, H.KnownSince n scanned key st ∧
    (H.desk n).clock.micros - scanned.micros < H.start.board.ttl

/-- **Every status that is kept was found** since the last forgetting, and since the scan whose
time is kept. -/
structure Traced (H : History μ) (n : Nat) : Prop where
  remembered : ∀ {key st}, Assoc.get? key (H.desk n).board.statuses = some st →
    H.Remembers n key st
  scanned : ∀ {t}, (H.desk n).board.lastScan = some t → ∃ k < n,
    (H.visit k).ScansUntil (H.desk k) t ∧ H.Lasting k n ∧
    ∀ {key st}, Assoc.get? key (H.desk n).board.statuses = some st → ∃ j ≥ k, j < n ∧ H.Finds j key st

theorem Lasting.next (h : H.Lasting j n) (hv : H.visit n ≠ .invalidate) : H.Lasting j (n + 1) := by
  intro m hjm hm
  rcases Nat.lt_succ_iff_lt_or_eq.mp hm with hm | rfl
  · exact h m hjm hm
  · exact hv

theorem lasting_last (H : History μ) (n : Nat) : H.Lasting n (n + 1) := by
  intro m hn hm
  omega

theorem Remembers.next (h : H.Remembers n key st) (hv : H.visit n ≠ .invalidate) :
    H.Remembers (n + 1) key st := by
  obtain ⟨j, hj, hfinds, hlast⟩ := h
  exact ⟨j, Nat.lt_succ_of_lt hj, hfinds, hlast.next hv⟩

theorem Finds.remembers (h : H.Finds n key st) : H.Remembers (n + 1) key st :=
  ⟨n, n.lt_succ_self, h, H.lasting_last n⟩

theorem traced_of_blank (h : (H.desk n).board.Blank) : H.Traced n where
  remembered := by rw [h.statuses]; nofun
  scanned := by rw [h.lastScan]; nofun

/-- A visit that forgets nothing keeps the trace, when every status after it was kept before or
is found by it. -/
theorem Traced.next_of_kept (h : H.Traced n) (hv : H.visit n ≠ .invalidate)
    (hlast : (H.desk (n + 1)).board.lastScan = (H.desk n).board.lastScan)
    (hkept : ∀ {key st}, Assoc.get? key (H.desk (n + 1)).board.statuses = some st →
      H.Finds n key st ∨ Assoc.get? key (H.desk n).board.statuses = some st) :
    H.Traced (n + 1) where
  remembered hk := (hkept hk).elim Finds.remembers fun hold => (h.remembered hold).next hv
  scanned ht := by
    obtain ⟨k, hk, hdone, hlasting, hsince⟩ := h.scanned (hlast ▸ ht)
    refine ⟨k, Nat.lt_succ_of_lt hk, hdone, hlasting.next hv, fun hkey => ?_⟩
    rcases hkept hkey with hnew | hold
    · exact ⟨n, Nat.le_of_lt hk, n.lt_succ_self, hnew⟩
    · obtain ⟨j, hkj, hj, hfinds⟩ := hsince hold
      exact ⟨j, hkj, Nat.lt_succ_of_lt hj, hfinds⟩

/-- **One visit** keeps the trace. -/
theorem Traced.next (h : H.Traced n) : H.Traced (n + 1) := by
  rcases (H.visit n).does (H.desk n) with
    ⟨hv, hst, hlast⟩ | hblank | ⟨hscans, hscan, hst, hlast⟩ | ⟨hv, hfinds, hst, hlast⟩
  · exact h.next_of_kept hv hlast fun hk => .inr (hst ▸ hk)
  · exact traced_of_blank hblank
  · have hfinds {key st} (hk : Assoc.get? key (H.desk (n + 1)).board.statuses = some st) :
        H.Finds n key st := Visit.finds_of_folded hscans hscan (hst ▸ hk)
    exact {
      remembered := fun hk => (hfinds hk).remembers
      scanned := fun ht => by
        cases hlast.symm.trans ht
        exact ⟨n, n.lt_succ_self, ⟨_, _, _, hscans, hscan, rfl⟩, H.lasting_last n,
          fun hk => ⟨n, Nat.le_refl n, n.lt_succ_self, hfinds hk⟩⟩ }
  · refine h.next_of_kept hv hlast fun {key st} hk => ?_
    rw [show (H.desk (n + 1)).board.statuses = _ from hst, Assoc.get?_put] at hk
    split at hk
    · next hsame => cases hk; exact .inl (hsame ▸ hfinds)
    · exact .inr hk

theorem traced (H : History μ) : ∀ n, H.Traced n
  | 0 => traced_of_blank H.blank
  | n + 1 => (H.traced n).next

theorem desk_ttl (H : History μ) : ∀ n, (H.desk n).board.ttl = H.start.board.ttl
  | 0 => rfl
  | n + 1 => ((H.visit n).after_ttl (H.desk n)).trans (H.desk_ttl n)

/-- What is kept while a scan is fresh is recent. -/
theorem recent_of_recalled (h : (H.desk n).board.recalled (H.desk n).clock key = some st) :
    H.Recent n key st := by
  obtain ⟨hfresh, hkey⟩ := Board.recalled_eq_some.mp h
  obtain ⟨-, t, ht, hage⟩ := Board.isFresh_iff.mp hfresh
  obtain ⟨k, hk, hdone, hlasting, hsince⟩ := (H.traced n).scanned ht
  obtain ⟨j, hkj, hj, hfinds⟩ := hsince hkey
  exact ⟨t, ⟨k, j, hkj, hj, hdone, hfinds, hlasting⟩, H.desk_ttl n ▸ hage⟩

/-- The status of one tweak is found now, or is recent, or the catalog does not know the tweak. -/
theorem of_statusOf {w : Watcher μ} {tweakId : String} {d' : Desk μ}
    (hv : H.visit n = .statusOf w tweakId)
    (h : (Desk.statusOf w tweakId).on (H.desk n) = (.ok st, d')) :
    (d'.shelf.catalog.known? tweakId = none ∧ st = Desk.missing tweakId d'.clock) ∨
      H.Finds n (Text.fold tweakId) st ∨ H.Recent n (Text.fold tweakId) st := by
  rw [Desk.statusOf_on] at h
  split at h
  · next hrecall => cases h; exact .inr (.inr (recent_of_recalled hrecall))
  · next hrecall =>
    rw [Desk.renew_on] at h
    split at h
    · next hlook =>
      cases h
      refine .inr (.inl ?_)
      rw [Finds, hv]
      exact .look hrecall hlook
    · next hlook => cases h; exact .inl ⟨Desk.look_none hlook, rfl⟩
    · cases h

/-- The statuses of a list are found now, or are recent, or stand for tweaks that were not
scanned; if the scan of the list fails, they are those that were remembered. -/
theorem of_items {w : Watcher μ} {items : List Item} {d' : Desk μ} (hv : H.visit n = .items w)
    (h : (Desk.items w).on (H.desk n) = (.ok items, d')) {i : Item} (hi : i ∈ items) :
    i.status = Status.notScanned i.tweak.id d'.clock ∨ H.Finds n i.tweak.key i.status ∨
      H.Recent n i.tweak.key i.status ∨
      ((H.visit n).ScanFails (H.desk n) ∧ H.Remembers n i.tweak.key i.status ∧
        Assoc.get? i.tweak.key (H.desk n).board.statuses = some i.status) := by
  rw [Desk.items_on] at h
  have hshown := (Desk.shown_ok h).2 i hi
  cases hkept : Assoc.get? i.tweak.key
      (if (H.desk n).board.isFresh (H.desk n).clock then H.desk n
        else ((Desk.refresh w).on (H.desk n)).2).board.statuses with
  | none => rw [hkept] at hshown; exact .inl hshown
  | some st =>
    rw [hkept, Option.getD_some] at hshown
    rw [hshown]
    refine .inr ?_
    cases hfresh : (H.desk n).board.isFresh (H.desk n).clock with
    | true =>
      rw [hfresh, if_pos rfl] at hkept
      exact .inr (.inl (recent_of_recalled (Board.recalled_eq_some.mpr ⟨hfresh, hkept⟩)))
    | false =>
      rw [hfresh, if_neg nofun] at hkept
      have hscans : (H.visit n).Scans (H.desk n) w := hv ▸ .items hfresh
      rcases hscan : (Desk.scan w).on (H.desk n) with ⟨f | found, d₁⟩
      · obtain ⟨shelf, hrefresh⟩ := Desk.refresh_of_error hscan
        rw [hrefresh] at hkept
        exact .inr (.inr ⟨⟨w, f, d₁, hscans, hscan⟩, (H.traced n).remembered hkept, hkept⟩)
      · obtain ⟨shelf, hrefresh⟩ := Desk.refresh_of_ok hscan
        rw [hrefresh] at hkept
        exact .inl (Visit.finds_of_folded hscans hscan hkept)

/-- A visit that forgets finds nothing. -/
theorem not_finds_of_invalidate (hm : H.visit m = .invalidate) : ¬H.Finds m key st := by
  intro h
  rw [Finds, hm] at h
  cases h with
  | scan hscans => cases hscans

/-- What is remembered was found after every forgetting. -/
theorem Remembers.found_after (h : H.Remembers n key st) (hm : H.visit m = .invalidate)
    (hmn : m < n) : ∃ j, m < j ∧ j < n ∧ H.Finds j key st := by
  obtain ⟨j, hj, hfinds, hlasting⟩ := h
  refine ⟨j, ?_, hj, hfinds⟩
  rcases Nat.lt_trichotomy m j with hlt | rfl | hlt
  · exact hlt
  · exact absurd hfinds (not_finds_of_invalidate hm)
  · exact absurd hm (hlasting m hlt hmn)

theorem Recent.remembers (h : H.Recent n key st) : H.Remembers n key st := by
  obtain ⟨_, ⟨k, j, hkj, hj, -, hfinds, hlasting⟩, -⟩ := h
  exact ⟨j, hj, hfinds, fun m hm => hlasting m (Nat.lt_of_le_of_lt hkj hm)⟩

end History

/-! ## Runs of tweaks -/

namespace Service

variable {s : Service μ} {c : Control μ} {p p' : Program μ} {results : Assoc String Result}

/-- A call of the service that runs tweaks gives results and leaves a program. -/
inductive Runs (s : Service μ) (c : Control μ) (p : Program μ) (results : Assoc String Result)
    (p' : Program μ) : Prop
  | apply (ids : List String) (force : Bool) (h : (s.apply ids c force).on p = (.ok results, p'))
  | revert (ids : List String) (h : (s.revert ids c).on p = (.ok results, p'))
  | applyPending (h : (s.applyPending c).on p = (.ok results, p'))

/-- **Every run of tweaks that returns** ends with a desk that has forgotten everything. -/
theorem Runs.blank (h : s.Runs c p results p') : p'.board.Blank := by
  cases h with
  | apply ids force h =>
    obtain ⟨_, p₁, -, h⟩ := Act.ok_of_on_bind h
    obtain ⟨_, p₂, -, h⟩ := Act.ok_of_on_bind h
    cases h
    exact Board.invalidate_blank _
  | revert ids h =>
    obtain ⟨_, p₁, -, h⟩ := Act.ok_of_on_bind h
    obtain ⟨_, p₂, -, h⟩ := Act.ok_of_on_bind h
    cases h
    exact Board.invalidate_blank _
  | applyPending h =>
    rw [applyPending_on] at h
    obtain ⟨_, p₁, -, h⟩ := Act.ok_of_on_bind h
    obtain ⟨_, p₂, -, h⟩ := Act.ok_of_on_bind h
    obtain ⟨_, p₃, -, h⟩ := Act.ok_of_on_bind h
    cases h
    exact Board.invalidate_blank _

end Service

/-- **Statuses are never too old.**  At every visit of every history, the status of one tweak is
found by this visit, or is recent, or says that the catalog does not know the tweak; a status of
a list is found by this visit, or is recent, or says that the tweak was not scanned, or is what
the desk kept while the scan of this very visit failed.  What is recent or remembered was found
after every forgetting, and every run of tweaks that returns forgets everything. -/
theorem History.statuses_recent (H : History μ) (n : Nat) :
    (∀ {w tweakId st d'}, H.visit n = .statusOf w tweakId →
      (Desk.statusOf w tweakId).on (H.desk n) = (.ok st, d') →
        (d'.shelf.catalog.known? tweakId = none ∧ st = Desk.missing tweakId d'.clock) ∨
          H.Finds n (Text.fold tweakId) st ∨ H.Recent n (Text.fold tweakId) st) ∧
    (∀ {w items d'}, H.visit n = .items w →
      (Desk.items w).on (H.desk n) = (.ok items, d') → ∀ i ∈ items,
        i.status = Status.notScanned i.tweak.id d'.clock ∨ H.Finds n i.tweak.key i.status ∨
          H.Recent n i.tweak.key i.status ∨
          ((H.visit n).ScanFails (H.desk n) ∧ H.Remembers n i.tweak.key i.status ∧
            Assoc.get? i.tweak.key (H.desk n).board.statuses = some i.status)) ∧
    (∀ {m key st}, m < n → H.visit m = .invalidate → H.Recent n key st ∨ H.Remembers n key st →
      ∃ j, m < j ∧ j < n ∧ H.Finds j key st) ∧
    ∀ {s : Service μ} {c p results p'}, s.Runs c p results p' → p'.board.Blank :=
  ⟨of_statusOf, fun hv h _ hi => of_items hv h hi,
    fun hmn hm h => (h.elim Recent.remembers id).found_after hm hmn, Service.Runs.blank⟩

/-! ## A sample -/

/-- A watcher that says of every tweak what it is told; its scans may fail. -/
def sampleWatcher (works : Bool) (message : String) : Watcher Machine where
  evaluate t := pure { tweakId := t.id, message }
  evaluateBatch ts :=
    if works then pure (ts.map fun t => (t.id, { tweakId := t.id, message }))
    else throw (.mistyped "no answer")

/-- Seconds pass. -/
def samplePause (seconds : Int) : Visit Machine := .elsewhere fun d =>
  ({ d.shelf with host :=
      { d.shelf.host with clock := ⟨d.clock.micros + seconds * Moment.second⟩ } }, d.board.pending)

/-- Two tweaks are scanned and one of them is asked for later; when the scan is old, a list
fails to scan again.  Then everything is forgotten and one tweak is asked for. -/
def sampleHistory : History Machine where
  start :=
    { board := { ttl := 300 * Moment.second }
      shelf := ⟨.memory [sampleSetting "a", sampleSetting "b"], { machine := {} }⟩ }
  visit
    | 0 => .refresh (sampleWatcher true "first")
    | 1 | 3 => samplePause 200
    | 2 => .statusOf (sampleWatcher true "second") "A"
    | 4 => .items (sampleWatcher false "third")
    | 5 => .invalidate
    | 6 => .statusOf (sampleWatcher true "fourth") "b"
    | _ => samplePause 1
  blank := ⟨rfl, rfl⟩

/-- A program that keeps the status of a tweak. -/
def sampleKeeping : Program Machine :=
  { sampleProgram with board :=
      { ttl := 1, statuses := [("a", { tweakId := "a" })], lastScan := some ⟨0⟩ } }

/-- A fresh status is given again under another spelling, a list whose scan fails shows what is
old, what is found after a forgetting is remembered, and a run of tweaks forgets. -/
theorem sample_statuses :
    (∃ st d', (Desk.statusOf (sampleWatcher true "second") "A").on (sampleHistory.desk 2) =
        (.ok st, d') ∧ st.message = "first" ∧
      ((d'.shelf.catalog.known? "A" = none ∧ st = Desk.missing "A" d'.clock) ∨
        sampleHistory.Finds 2 (Text.fold "A") st ∨ sampleHistory.Recent 2 (Text.fold "A") st)) ∧
    (∃ items d', (Desk.items (sampleWatcher false "third")).on (sampleHistory.desk 4) =
        (.ok items, d') ∧ items.map (fun i => i.status.message) = ["first", "first"] ∧
      ∀ i ∈ items, i.status = Status.notScanned i.tweak.id d'.clock ∨
        sampleHistory.Finds 4 i.tweak.key i.status ∨ sampleHistory.Recent 4 i.tweak.key i.status ∨
        ((sampleHistory.visit 4).ScanFails (sampleHistory.desk 4) ∧
          sampleHistory.Remembers 4 i.tweak.key i.status ∧
          Assoc.get? i.tweak.key (sampleHistory.desk 4).board.statuses = some i.status)) ∧
    (∃ st, sampleHistory.Remembers 8 (Text.fold "b") st ∧
      ∃ j, 5 < j ∧ j < 8 ∧ sampleHistory.Finds j (Text.fold "b") st) ∧
    ¬sampleKeeping.board.Blank ∧
    ∃ results p', sampleService.Runs {} sampleKeeping results p' ∧ p'.board.Blank := by
  have hstatus : (Desk.statusOf (sampleWatcher true "second") "A").succeeds (sampleHistory.desk 2)
      (fun st _ => st.message == "first") = true := by decide +kernel
  obtain ⟨st, d₂, hst, hmessage⟩ := Act.of_succeeds hstatus
  have hlist : (Desk.items (sampleWatcher false "third")).succeeds (sampleHistory.desk 4)
      (fun items _ => items.map (fun i => i.status.message) == ["first", "first"]) = true := by
    decide +kernel
  obtain ⟨items, d₄, hitems, hmessages⟩ := Act.of_succeeds hlist
  have hlook : (Desk.look (sampleWatcher true "fourth") "b").succeeds (sampleHistory.desk 6)
      (fun st? _ => st?.isSome && ((sampleHistory.desk 6).board.recalled (sampleHistory.desk 6).clock
        (Text.fold "b")).isNone) = true := by
    decide +kernel
  obtain ⟨st?, d₆, hfound, hsome⟩ := Act.of_succeeds hlook
  obtain ⟨hsome, hnone⟩ := Bool.and_eq_true_iff.mp hsome
  obtain ⟨st', rfl⟩ := Option.isSome_iff_exists.mp hsome
  have hfinds : sampleHistory.Finds 6 (Text.fold "b") st' :=
    .look (Option.isNone_iff_eq_none.mp hnone) hfound
  have hremembers : sampleHistory.Remembers 8 (Text.fold "b") st' :=
    hfinds.remembers.next (n := 7) nofun
  have hrevert : (sampleService.revert ["a"] {}).succeeds sampleKeeping (fun _ _ => true) = true := by
    decide +kernel
  obtain ⟨results, p', hrun, -⟩ := Act.of_succeeds hrevert
  exact ⟨⟨st, d₂, hst, beq_iff_eq.mp hmessage,
      (History.statuses_recent sampleHistory 2).1 rfl hst⟩,
    ⟨items, d₄, hitems, beq_iff_eq.mp hmessages,
      (History.statuses_recent sampleHistory 4).2.1 rfl hitems⟩,
    ⟨st', hremembers, (History.statuses_recent sampleHistory 8).2.2.1 (by decide) rfl
      (.inr hremembers)⟩,
    (fun h => nomatch h.statuses),
    results, p', .revert ["a"] hrun,
    (History.statuses_recent sampleHistory 0).2.2.2 (.revert ["a"] hrun)⟩

end TweakEngine
