/-
# Failures that are shown

Applying and reverting by identifier look the identifiers up, run the tweaks that were found in
one batch, and put the results of the batch over those of the identifiers that were refused.
Every identifier has a result, and a refused one has one that says so (`Served`).  But a tweak
that is asked for twice runs twice, and only its last result is kept: a failure is shown unless
a later run of the same tweak ends well (`failures_shown`), which cannot happen when all
identifiers differ.
-/

import TweakEngine.Proofs.BatchProtocol
import TweakEngine.Proofs.HiddenTweaks
import TweakEngine.CommandLine.Commands

namespace TweakEngine

variable {μ : Type}

/-! ## Identifiers that are looked up -/

namespace Program

/-- The tweak with an identifier, unless it is hidden. -/
def accepted? (p : Program μ) (id : String) : Option Tweak :=
  (p.catalog.known? id).filter fun t => !decide (p.config.Hides t.id)

/-- The result of an identifier that is unknown or hidden. -/
def rejection? (p : Program μ) (id : String) : Option (String × Result) :=
  match p.catalog.known? id with
  | none => some (id, Result.unsuccessful id ("Tweak not found: " ++ id))
  | some t =>
    if p.config.Hides t.id then
      some (t.id, Result.unsuccessful t.id "Tweak is disabled in configuration")
    else none

/-- The identifier under which a result is shown. -/
def shownId (p : Program μ) (id : String) : String := ((p.catalog.known? id).map Tweak.id).getD id

section

variable {p : Program μ} {id : String} {t : Tweak}

theorem lookup_unknown (h : p.catalog.known? id = none) : p.accepted? id = none ∧
    p.rejection? id = some (id, Result.unsuccessful id ("Tweak not found: " ++ id)) := by
  rw [accepted?, rejection?, h]
  exact ⟨rfl, rfl⟩

theorem lookup_hidden (h : p.catalog.known? id = some t) (ht : p.config.Hides t.id) :
    p.accepted? id = none ∧ p.rejection? id =
      some (t.id, Result.unsuccessful t.id "Tweak is disabled in configuration") := by
  rw [accepted?, rejection?, h]
  exact ⟨by simp [ht], if_pos ht⟩

theorem lookup_shown (h : p.catalog.known? id = some t) (ht : ¬p.config.Hides t.id) :
    p.accepted? id = some t ∧ p.rejection? id = none := by
  rw [accepted?, rejection?, h]
  exact ⟨by simp [ht], if_neg ht⟩

/-- An identifier gives a tweak or a refusal. -/
theorem lookup_cases (p : Program μ) (id : String) :
    (∃ t, p.catalog.known? id = some t ∧ ¬p.config.Hides t.id ∧ p.accepted? id = some t ∧
      p.rejection? id = none) ∨
    ∃ r, p.accepted? id = none ∧ p.rejection? id = some (p.shownId id, r) ∧ r.success = false ∧
      ∀ t, p.catalog.known? id = some t → p.config.Hides t.id := by
  cases h : p.catalog.known? id with
  | none =>
    obtain ⟨haccepted, hrejection⟩ := lookup_unknown h
    refine .inr ⟨Result.unsuccessful id ("Tweak not found: " ++ id), haccepted, ?_, rfl, nofun⟩
    rw [hrejection, shownId, h]
    rfl
  | some t =>
    by_cases ht : p.config.Hides t.id
    · obtain ⟨haccepted, hrejection⟩ := lookup_hidden h ht
      refine .inr ⟨Result.unsuccessful t.id "Tweak is disabled in configuration", haccepted, ?_,
        rfl, fun u hu => ?_⟩
      · rw [hrejection, shownId, h]
        rfl
      · cases hu
        exact ht
    · obtain ⟨haccepted, hrejection⟩ := lookup_shown h ht
      exact .inl ⟨t, rfl, ht, haccepted, hrejection⟩

end

end Program

namespace Service

open Program

variable {p p' : Program μ} {ids : List String}

/-- What the identifiers give is what the program knows in the end. -/
theorem resolve_go_answers {found : List Tweak} {rejected : Assoc String Result}
    {out : List Tweak × Assoc String Result}
    (h : (resolve.go ids found rejected).on p = (.ok out, p')) :
    out = (found ++ ids.filterMap p'.accepted?,
      Assoc.update rejected (ids.filterMap p'.rejection?)) := by
  induction ids generalizing found rejected p with
  | nil =>
    cases h
    rw [List.filterMap_nil, List.append_nil]
    rfl
  | cons id ids ih =>
    obtain ⟨t?, p₁, hfind, h⟩ := Act.ok_of_on_bind h
    obtain ⟨hlisted, ht?⟩ := find?_answers hfind
    -- looking up the others leaves the catalog and the configuration as they are
    have hstays : ∀ {found rejected}, (resolve.go ids found rejected).on p₁ = (.ok out, p') →
        p'.catalog.known? id = t? ∧ p'.config = p₁.config := fun h => by
      have hreads := (resolve_go_reads ids _ _).of_on h
      rw [hreads.catalog hlisted]
      exact ⟨ht?.symm, hreads.config⟩
    cases t? with
    | none =>
      obtain ⟨haccepted, hrejection⟩ := lookup_unknown (hstays h).1
      rw [List.filterMap_cons_none haccepted, List.filterMap_cons_some hrejection]
      exact ih h
    | some t =>
      obtain ⟨hidden, p₂, hanswer, h⟩ := Act.ok_of_on_bind h
      obtain ⟨hhidden, rfl⟩ := Prod.mk.inj ((isDisabled_on t.id p₁).symm.trans hanswer)
      cases hidden with
      | true =>
        obtain ⟨hknown, hconfig⟩ := hstays h
        have hhides : p'.config.Hides t.id := by
          rw [Config.Hides, hconfig]
          exact hhidden
        obtain ⟨haccepted, hrejection⟩ := lookup_hidden hknown hhides
        rw [List.filterMap_cons_none haccepted, List.filterMap_cons_some hrejection]
        exact ih h
      | false =>
        obtain ⟨hknown, hconfig⟩ := hstays h
        have hshown : ¬p'.config.Hides t.id := by
          rw [Config.Hides, hconfig, hhidden]
          exact fun hsame => Bool.false_ne_true (Except.ok.inj hsame)
        obtain ⟨haccepted, hrejection⟩ := lookup_shown hknown hshown
        rw [List.filterMap_cons_some haccepted, List.filterMap_cons_none hrejection,
          ih h, List.append_assoc]
        rfl

/-- **What identifiers give**: the tweaks that are known and not hidden, and a result for every
other one. -/
theorem resolve_answers {out : List Tweak × Assoc String Result}
    (h : (resolve ids).on p = (.ok out, p')) :
    out = (ids.filterMap p'.accepted?, Assoc.ofList (ids.filterMap p'.rejection?)) := by
  cases ids with
  | nil =>
    cases h
    rfl
  | cons id ids => exact resolve_go_answers h

/-! ## Batches nobody cancels -/

/-- The engine that applies or reverts. -/
def engineOf (s : Service μ) (force : Bool) : Action → Engine μ
  | .apply => s.engineFor force
  | .revert => s.engine

/-- Applies or reverts tweaks. -/
def runAll (s : Service μ) (c : Control μ) (force : Bool) (action : Action) (tweaks : List Tweak) :
    Task μ (Assoc String Result) :=
  match action with
  | .apply => s.runApply tweaks c force
  | .revert => runBatch s.engine .revert tweaks c

/-- Applies or reverts the tweaks with given identifiers. -/
def serve (s : Service μ) (c : Control μ) (force : Bool) (action : Action) (ids : List String) :
    Task μ (Assoc String Result) :=
  match action with
  | .apply => s.apply ids c force
  | .revert => s.revert ids c

variable {s : Service μ} {c : Control μ} {force : Bool} {action : Action} {tweaks : List Tweak}
  {f : Failure}

theorem serve_eq (s : Service μ) (c : Control μ) (force : Bool) (action : Action)
    (ids : List String) : s.serve c force action ids = (do
      let (tweaks, rejected) ← resolve ids
      let results := Assoc.update rejected (← s.runAll c force action tweaks)
      onDesk (Desk.changeBoard Board.invalidate)
      return results) := by
  cases action <;> rfl

/-- All tweaks have run one after the other, perhaps after a restore point was made, and the table
of their results, in which the last result of a tweak counts, is given. -/
def RunsOf (s : Service μ) (c : Control μ) (force : Bool) (action : Action) (tweaks : List Tweak)
    (p : Program μ) (turns : List (BatchTurn (Program μ))) (results : Assoc String Result)
    (p' : Program μ) : Prop :=
  ∃ q, (q = p ∨ ∃ text, q = ((onHost (s.makeRestorePoint text)).on p).2) ∧
    BatchTurn.Row (s.engineOf force action) sessionPart action c.sink c.cancelled tweaks.length 0
      turns q p' ∧ turns.map BatchTurn.tweak = tweaks ∧
    results = Assoc.ofList (turns.map BatchTurn.entry)

/-- What can go wrong besides operations: making a restore point, or the call of a tweak. -/
inductive Raises (s : Service μ) (c : Control μ) (force : Bool) (action : Action)
    (tweaks : List Tweak) (f : Failure) : Prop
  | restorePoint {text : String} {p p' : Program μ}
      (h : (onHost (s.makeRestorePoint text)).on p = (.error f, p'))
  | call {t : Tweak} {p p' : Program μ} (ht : t ∈ tweaks)
      (h : ((s.engineOf force action).runOne sessionPart action c.cancelled t).on p =
        (.error f, p'))

/-- All tweaks have run, or something else has gone wrong. -/
def Concludes (s : Service μ) (c : Control μ) (force : Bool) (action : Action)
    (tweaks : List Tweak) (p : Program μ) : Except Failure (Assoc String Result) × Program μ → Prop
  | (.ok results, p') => ∃ turns, s.RunsOf c force action tweaks p turns results p'
  | (.error f, _) => s.Raises c force action tweaks f

theorem runBatch_concludes (s : Service μ) (force : Bool) (action : Action) (tweaks : List Tweak)
    (hc : c.cancelled = fun _ => false) {p q : Program μ}
    (hq : q = p ∨ ∃ text, q = ((onHost (s.makeRestorePoint text)).on p).2) :
    s.Concludes c force action tweaks p
      ((runBatch (s.engineOf force action) action tweaks c).on q) := by
  obtain ⟨turns, rest, p₁, r, p', htweaks, hrow, hends, hrun⟩ := Engine.runFrom_row
    (s.engineOf force action) sessionPart action c.sink c.cancelled tweaks.length tweaks 0 [] q
  have hrun : (runBatch (s.engineOf force action) action tweaks c).on q = _ := hrun
  rw [hrun]
  cases hends with
  | finished => exact ⟨turns, q, hq, hrow, by rw [htweaks, List.append_nil], rfl⟩
  | stopped seen =>
    rw [hc] at seen
    cases seen
  | raised free opened call =>
    exact .call (htweaks ▸ List.mem_append_right _ List.mem_cons_self) call

/-- Unless something else goes wrong, all tweaks run. -/
theorem runAll_concludes (s : Service μ) (force : Bool) (action : Action) (tweaks : List Tweak)
    (hc : c.cancelled = fun _ => false) (p : Program μ) :
    s.Concludes c force action tweaks p ((s.runAll c force action tweaks).on p) := by
  cases action with
  | revert => exact runBatch_concludes s force .revert tweaks hc (.inl rfl)
  | apply =>
    cases tweaks with
    | nil => exact ⟨[], p, .inl rfl, rfl, rfl, rfl⟩
    | cons t ts =>
      unfold runAll runApply
      rw [List.isEmpty_cons, if_neg Bool.false_ne_true, Act.on_bind, Act.on_view]
      dsimp only
      split
      · rw [Act.discard_bind, Act.on_bind]
        rcases hpoint : (onHost (s.makeRestorePoint ("Before applying " ++
          toString (t :: ts).length ++ " tweak(s)"))).on p with ⟨f | _, p₁⟩
        · exact .restorePoint hpoint
        · exact runBatch_concludes s force .apply (t :: ts) hc
            (.inr ⟨_, (congrArg Prod.snd hpoint).symm⟩)
      · exact runBatch_concludes s force .apply (t :: ts) hc (.inl rfl)

/-! ## Results that are shown -/

/-- The results of a call for identifiers, by the program that has looked them up: the tweaks
that were found have run, every identifier has a result, a refused one has one that says so, and
of the runs of one tweak the last one counts. -/
structure Served (s : Service μ) (c : Control μ) (force : Bool) (action : Action)
    (ids : List String) (p : Program μ) (turns : List (BatchTurn (Program μ)))
    (results : Assoc String Result) (p' : Program μ) : Prop where
  runs : ∃ table q, s.RunsOf c force action (ids.filterMap p.accepted?) p turns table q ∧
    p' = ((onDesk (Desk.changeBoard Board.invalidate)).on q).2
  shown : ∀ id ∈ ids, ∃ r, Assoc.get? (p.shownId id) results = some r
  refused : ∀ id ∈ ids, (∀ t, p.catalog.known? id = some t → p.config.Hides t.id) →
    ∃ r, Assoc.get? (p.shownId id) results = some r ∧ r.success = false
  last : ∀ before x after, turns = before ++ x :: after →
    (∀ y ∈ after, y.tweak.id ≠ x.tweak.id) → Assoc.get? x.tweak.id results = some x.result

end Service

/-- Among the turns one ends with a failure, and the last one of the same tweak does not. -/
def FailureLost {S : Type} (turns : List (BatchTurn S)) : Prop :=
  ∃ before x after y rest, turns = before ++ x :: (after ++ y :: rest) ∧
    x.result.clean = false ∧ y.tweak.id = x.tweak.id ∧ y.result.clean = true ∧
    ∀ z ∈ rest, z.tweak.id ≠ y.tweak.id

namespace Service

open Program

variable {s : Service μ} {c : Control μ} {force : Bool} {action : Action} {ids : List String}
  {p p' : Program μ} {turns : List (BatchTurn (Program μ))} {results table : Assoc String Result}

/-- What is known under the identifier of a tweak is the tweak. -/
theorem known?_id {c : Catalog} {id : String} {t : Tweak} (h : c.known? id = some t) :
    c.known? t.id = some t :=
  (Catalog.known?_congr (Catalog.known?_key h)).trans h

/-- A refused identifier is not one of a tweak that was found. -/
theorem shownId_ne {id id' : String} {t : Tweak}
    (hid : ∀ t, p.catalog.known? id = some t → p.config.Hides t.id)
    (hid' : p.accepted? id' = some t) : t.id ≠ p.shownId id := by
  obtain ⟨u, hknown, hshown, haccepted, -⟩ | ⟨r, haccepted, -⟩ := lookup_cases p id'
  · cases haccepted.symm.trans hid'
    intro hsame
    cases h : p.catalog.known? id with
    | none =>
      have hself : p.shownId id = id := by rw [shownId, h]; rfl
      rw [← hself, ← hsame] at h
      cases (known?_id hknown).symm.trans h
    | some u =>
      have hself : p.shownId id = u.id := by rw [shownId, h]; rfl
      exact hshown (by rw [hsame, hself]; exact hid u h)
  · cases haccepted.symm.trans hid'

/-- A refused identifier has a result that says so. -/
theorem get?_refused {id : String} (hid : id ∈ ids)
    (hrefused : ∀ t, p.catalog.known? id = some t → p.config.Hides t.id) :
    ∃ r, Assoc.get? (p.shownId id) (Assoc.ofList (ids.filterMap p.rejection?)) = some r ∧
      r.success = false := by
  obtain ⟨t, hknown, hshown, -⟩ | ⟨r, -, hrejection, -⟩ := lookup_cases p id
  · exact absurd (hrefused t hknown) hshown
  have hmem : p.shownId id ∈ Assoc.keys (ids.filterMap p.rejection?) :=
    List.mem_map.mpr ⟨_, List.mem_filterMap.mpr ⟨id, hid, hrejection⟩, rfl⟩
  obtain ⟨before, r', after, hsplit, hlast⟩ := Assoc.exists_last hmem
  refine ⟨r', by rw [hsplit]; exact Assoc.get?_update_last hlast, ?_⟩
  have hr' : (p.shownId id, r') ∈ ids.filterMap p.rejection? := by
    rw [hsplit]
    exact List.mem_append_right _ List.mem_cons_self
  obtain ⟨id', -, hr'⟩ := List.mem_filterMap.mp hr'
  obtain ⟨t, -, -, -, hnone⟩ | ⟨r'', -, hsome, hfalse, -⟩ := lookup_cases p id'
  · cases hnone.symm.trans hr'
  · have hpair := Option.some.inj (hsome.symm.trans hr')
    exact (congrArg (·.2.success) hpair).symm.trans hfalse

/-- The results of identifiers: those of the turns over those of the refused ones. -/
def shownResults (p : Program μ) (ids : List String) (turns : List (BatchTurn (Program μ))) :
    Assoc String Result :=
  Assoc.update (Assoc.ofList (ids.filterMap p.rejection?))
    (Assoc.ofList (turns.map BatchTurn.entry))

theorem get?_shownResults (k : String) : Assoc.get? k (shownResults p ids turns) =
    (Assoc.get? k (Assoc.ofList (turns.map BatchTurn.entry))).or
      (Assoc.get? k (Assoc.ofList (ids.filterMap p.rejection?))) :=
  Assoc.get?_update_table (Assoc.nodup_update .nil)

/-- Of the runs of one tweak the last one counts. -/
theorem get?_shownResults_last {before after : List (BatchTurn (Program μ))}
    {x : BatchTurn (Program μ)} (h : ∀ y ∈ after, y.tweak.id ≠ x.tweak.id) :
    Assoc.get? x.tweak.id (shownResults p ids (before ++ x :: after)) = some x.result := by
  have hafter : x.tweak.id ∉ Assoc.keys (after.map BatchTurn.entry) := by
    rw [Assoc.keys, List.map_map]
    intro hmem
    obtain ⟨y, hy, hsame⟩ := List.mem_map.mp hmem
    exact h y hy hsame
  have hlast : Assoc.get? x.tweak.id (Assoc.ofList ((before ++ x :: after).map BatchTurn.entry)) =
      some x.result := by
    rw [List.map_append, List.map_cons]
    exact Assoc.get?_update_last hafter
  rw [get?_shownResults, hlast]
  rfl

section

variable (hturns : turns.map BatchTurn.tweak = ids.filterMap p.accepted?)

include hturns

theorem mem_keys_entries {k : String} : k ∈ Assoc.keys (turns.map BatchTurn.entry) ↔
    ∃ id ∈ ids, ∃ t, p.accepted? id = some t ∧ t.id = k := by
  have hkeys : Assoc.keys (turns.map BatchTurn.entry) =
      (ids.filterMap p.accepted?).map Tweak.id := by
    rw [← hturns, Assoc.keys, List.map_map, List.map_map]
    rfl
  rw [hkeys, List.mem_map]
  simp only [List.mem_filterMap]
  constructor
  · rintro ⟨t, ⟨id, hid, ht⟩, hk⟩
    exact ⟨id, hid, t, ht, hk⟩
  · rintro ⟨id, hid, t, ht, hk⟩
    exact ⟨t, ⟨id, hid, ht⟩, hk⟩

theorem get?_shownResults_refused {id : String} (hid : id ∈ ids)
    (hrefused : ∀ t, p.catalog.known? id = some t → p.config.Hides t.id) :
    ∃ r, Assoc.get? (p.shownId id) (shownResults p ids turns) = some r ∧ r.success = false := by
  have habsent : p.shownId id ∉ Assoc.keys (turns.map BatchTurn.entry) := by
    rw [mem_keys_entries hturns]
    rintro ⟨id', -, t, ht, hk⟩
    exact shownId_ne hrefused ht hk
  have hnone : Assoc.get? (p.shownId id) (Assoc.ofList (turns.map BatchTurn.entry)) = none :=
    Assoc.get?_update_absent habsent
  rw [get?_shownResults, hnone]
  exact get?_refused hid hrefused

/-- Every identifier has a result. -/
theorem get?_shownResults_some {id : String} (hid : id ∈ ids) :
    ∃ r, Assoc.get? (p.shownId id) (shownResults p ids turns) = some r := by
  obtain ⟨t, hknown, hshown, haccepted, -⟩ | ⟨r, -, -, -, hhides⟩ := lookup_cases p id
  · have hself : p.shownId id = t.id := by rw [shownId, hknown]; rfl
    obtain ⟨before, r, after, hsplit, hafter⟩ :=
      Assoc.exists_last ((mem_keys_entries hturns).mpr ⟨id, hid, t, haccepted, rfl⟩)
    have hlast : Assoc.get? t.id (Assoc.ofList (turns.map BatchTurn.entry)) = some r := by
      rw [hsplit]
      exact Assoc.get?_update_last hafter
    exact ⟨r, by rw [hself, get?_shownResults, hlast]; rfl⟩
  · obtain ⟨r, hr, -⟩ := get?_shownResults_refused hturns hid hhides
    exact ⟨r, hr⟩

end

/-- Runs of the tweaks that were found serve the identifiers. -/
theorem served_of_runs {q : Program μ}
    (hruns : s.RunsOf c force action (ids.filterMap p.accepted?) p turns table q) :
    table = Assoc.ofList (turns.map BatchTurn.entry) ∧
      s.Served c force action ids p turns (shownResults p ids turns)
        ((onDesk (Desk.changeBoard Board.invalidate)).on q).2 := by
  obtain ⟨q₀, hq₀, hrow, hturns, htable⟩ := hruns
  refine ⟨htable, ⟨table, q, ⟨q₀, hq₀, hrow, hturns, htable⟩, rfl⟩,
    fun id => get?_shownResults_some hturns, fun id => get?_shownResults_refused hturns, ?_⟩
  rintro before x after rfl hlast
  exact get?_shownResults_last hlast

/-! ## Failures that are lost -/

/-- A turn has a last one of the same tweak. -/
theorem exists_last_turn {S : Type} (x : BatchTurn S) : ∀ xs : List (BatchTurn S),
    (∀ y ∈ xs, y.tweak.id ≠ x.tweak.id) ∨ ∃ before y after, xs = before ++ y :: after ∧
      y.tweak.id = x.tweak.id ∧ ∀ z ∈ after, z.tweak.id ≠ y.tweak.id
  | [] => .inl (List.forall_mem_nil _)
  | y :: xs => by
    obtain h | ⟨before, z, after, rfl, hz, hafter⟩ := exists_last_turn x xs
    · by_cases hy : y.tweak.id = x.tweak.id
      · exact .inr ⟨[], y, xs, rfl, hy, fun z hz => hy ▸ h z hz⟩
      · exact .inl (List.forall_mem_cons.mpr ⟨hy, h⟩)
    · exact .inr ⟨y :: before, z, after, rfl, hz, hafter⟩

/-- Every failure is shown unless one is lost. -/
theorem Served.shows_iff (h : s.Served c force action ids p turns results p') :
    (∀ x ∈ turns, x.result.clean = false →
      ∃ r, Assoc.get? x.tweak.id results = some r ∧ r.clean = false) ↔ ¬FailureLost turns := by
  constructor
  · rintro hshown ⟨before, x, after, y, rest, hsplit, hx, hsame, hy, hlast⟩
    obtain ⟨r, hr, hfalse⟩ := hshown x (hsplit ▸ List.mem_append_right _ List.mem_cons_self) hx
    have hget := h.last (before ++ x :: after) y rest (by simp [hsplit]) hlast
    rw [hsame, hr] at hget
    cases hget
    cases hfalse.symm.trans hy
  · intro hkept x hmem hx
    obtain ⟨before, rest, rfl⟩ := List.append_of_mem hmem
    obtain hlast | ⟨after, y, rest, rfl, hsame, hlast⟩ := exists_last_turn x rest
    · exact ⟨x.result, h.last before x rest rfl hlast, hx⟩
    · refine ⟨y.result, ?_, ?_⟩
      · rw [← hsame]
        exact h.last (before ++ x :: after) y rest (by simp) hlast
      · by_contra hy
        rw [Bool.not_eq_false] at hy
        exact hkept ⟨before, x, after, y, rest, rfl, hx, hsame, hy, hlast⟩

theorem accepted?_key {id : String} {t : Tweak} (h : p.accepted? id = some t) :
    Text.fold t.id = Text.fold id := by
  obtain ⟨u, hknown, -, haccepted, -⟩ | ⟨r, haccepted, -⟩ := lookup_cases p id
  · cases haccepted.symm.trans h
    exact Catalog.known?_key hknown
  · cases haccepted.symm.trans h

/-- Tweaks that were found by identifiers that differ are different. -/
theorem nodup_accepted (h : (ids.map Text.fold).Nodup) :
    ((ids.filterMap p.accepted?).map Tweak.id).Nodup := by
  induction ids with
  | nil => exact .nil
  | cons id ids ih =>
    obtain ⟨hnew, hids⟩ := List.nodup_cons.mp h
    cases haccepted : p.accepted? id with
    | none =>
      rw [List.filterMap_cons_none haccepted]
      exact ih hids
    | some t =>
      rw [List.filterMap_cons_some haccepted]
      refine List.nodup_cons.mpr ⟨fun hmem => hnew ?_, ih hids⟩
      obtain ⟨u, hu, hsame⟩ := List.mem_map.mp hmem
      obtain ⟨id', hid', hu⟩ := List.mem_filterMap.mp hu
      rw [← accepted?_key haccepted, ← hsame, accepted?_key hu]
      exact List.mem_map_of_mem hid'

/-- No failure is lost when no identifier is asked for twice. -/
theorem kept_of_nodup (hids : (ids.map Text.fold).Nodup)
    (hturns : turns.map BatchTurn.tweak = ids.filterMap p.accepted?) : ¬FailureLost turns := by
  rintro ⟨before, x, after, y, rest, rfl, -, hsame, -⟩
  have hnodup := nodup_accepted (p := p) hids
  rw [← hturns, List.map_map, List.map_append, List.map_cons] at hnodup
  refine (List.nodup_cons.mp (List.nodup_append.mp hnodup).2.1).1 ?_
  exact List.mem_map.mpr ⟨y, List.mem_append_right _ List.mem_cons_self, hsame⟩

/-! ## Calls and commands -/

open CommandLine (Console Reporter)

/-- A result that shows a failure makes the exit code one. -/
theorem exitCode_of_failure {results : Assoc String Result} {k : String} {r : Result}
    (h : Assoc.get? k results = some r) (hr : r.clean = false) : Console.exitCode results = 1 := by
  refine if_neg fun hall => ?_
  have hclean : r.clean = true := List.all_eq_true.mp hall _ (Assoc.mem_of_get? h)
  cases hr.symm.trans hclean

/-- A command that was not declined exits with the code for the results of a call. -/
def Exits (s : Service μ) (k : Console μ) (settled force : Bool) (r : Reporter) (action : Action)
    (ids : List String) (command : Task μ Int) : Prop :=
  ∀ p code p', command.on p = (.ok code, p') →
    (∃ q q', (k.confirm settled).on q = (.ok false, q') ∧ code = 0) ∨
    ∃ q results q', (s.serve (Console.control r) force action ids).on q = (.ok results, q') ∧
      code = Console.exitCode results

theorem Exits.after {s : Service μ} {k : Console μ} {settled force : Bool} {r : Reporter}
    {action : Action} {ids : List String} {α : Type} {before : Task μ α} {command : α → Task μ Int}
    (h : ∀ x, s.Exits k settled force r action ids (command x)) :
    s.Exits k settled force r action ids (before >>= command) := by
  intro p code p' hrun
  obtain ⟨x, p₁, -, hrun⟩ := Act.ok_of_on_bind hrun
  exact h x p₁ code p' hrun

theorem exits_confirmed (s : Service μ) (k : Console μ) (settled force : Bool) (r : Reporter)
    (action : Action) (ids : List String) :
    s.Exits k settled force r action ids (do
      if !(← k.confirm settled) then
        Console.printLine "Cancelled."
        return 0
      let results ← s.serve (Console.control r) force action ids
      Console.printLine (r.results action results)
      return Console.exitCode results) := by
  intro p code p' h
  obtain ⟨go, p₁, hgo, h⟩ := Act.ok_of_on_bind h
  cases go with
  | false =>
    obtain ⟨_, p₂, -, h⟩ := Act.ok_of_on_bind h
    cases h
    exact .inl ⟨p, p₁, hgo, rfl⟩
  | true =>
    obtain ⟨results, p₂, hserve, h⟩ := Act.ok_of_on_bind h
    obtain ⟨_, p₃, -, h⟩ := Act.ok_of_on_bind h
    cases h
    exact .inr ⟨p₁, results, p₂, hserve, rfl⟩

theorem apply_exits (s : Service μ) (k : Console μ) (r : Reporter) (a : CommandLine.Applying) :
    s.Exits k (a.yes || r.isJson) a.force r .apply a.ids (k.apply s r a) := by
  have hconfirmed := exits_confirmed s k (a.yes || r.isJson) a.force r .apply a.ids
  unfold Console.apply
  dsimp only
  by_cases hpoint : a.restorePoint = true <;> by_cases hjson : (!r.isJson) = true
  · rw [if_pos hpoint, if_pos hjson]
    exact .after fun _ => .after fun _ => hconfirmed
  · rw [if_pos hpoint, if_neg hjson]
    exact .after fun _ => hconfirmed
  · rw [if_neg hpoint, if_pos hjson]
    exact .after fun _ => hconfirmed
  · rw [if_neg hpoint, if_neg hjson]
    exact hconfirmed

theorem revert_exits (s : Service μ) (k : Console μ) (r : Reporter) (v : CommandLine.Reverting) :
    s.Exits k (v.yes || r.isJson) false r .revert v.ids (k.revert s r v) := by
  have hconfirmed := exits_confirmed s k (v.yes || r.isJson) false r .revert v.ids
  unfold Console.revert
  dsimp only
  split
  · exact .after fun _ => hconfirmed
  · exact hconfirmed

/-- **Failures are shown.**  A call for identifiers that nobody cancels fails, because they cannot
be looked up or because something else than an operation goes wrong, or it serves them: every
identifier has a result, and a refused one has one that says so and makes the exit code one.  Every
failing run of a tweak is shown in its result exactly when no failure is lost, that is, when no
tweak that has failed runs again and ends well, and then it makes the exit code one; no failure is
lost when no identifier is asked for twice. -/
theorem failures_shown (s : Service μ) (c : Control μ) (hc : c.cancelled = fun _ => false)
    (force : Bool) (action : Action) (ids : List String) (p : Program μ) :
    (∀ results p', (s.serve c force action ids).on p = (.ok results, p') →
      ∃ out p₁ turns, (resolve ids).on p = (.ok out, p₁) ∧
        s.Served c force action ids p₁ turns results p' ∧
        (∀ id ∈ ids, (∀ t, p₁.catalog.known? id = some t → p₁.config.Hides t.id) →
          Console.exitCode results = 1) ∧
        ((∀ x ∈ turns, x.result.clean = false →
          ∃ r, Assoc.get? x.tweak.id results = some r ∧ r.clean = false) ↔ ¬FailureLost turns) ∧
        (¬FailureLost turns → ∀ x ∈ turns, x.result.clean = false → Console.exitCode results = 1) ∧
        ((ids.map Text.fold).Nodup → ¬FailureLost turns)) ∧
    (∀ f p', (s.serve c force action ids).on p = (.error f, p') →
      (∃ p₁, (resolve ids).on p = (.error f, p₁)) ∨
        ∃ out p₁, (resolve ids).on p = (.ok out, p₁) ∧ s.Raises c force action out.1 f) ∧
    (∀ k r a, s.Exits k (a.yes || r.isJson) a.force r .apply a.ids (Console.apply k s r a)) ∧
    ∀ k r v, s.Exits k (v.yes || r.isJson) false r .revert v.ids (Console.revert k s r v) := by
  refine ⟨fun results p' h => ?_, fun f p' h => ?_, apply_exits s, revert_exits s⟩
  · rw [serve_eq] at h
    obtain ⟨out, p₁, hresolve, h⟩ := Act.ok_of_on_bind h
    obtain ⟨table, p₂, hrun, h⟩ := Act.ok_of_on_bind h
    cases h
    have hbatch := runAll_concludes s force action out.1 hc p₁
    rw [hrun] at hbatch
    obtain ⟨turns, hruns⟩ := hbatch
    obtain rfl := resolve_answers hresolve
    obtain ⟨rfl, hserved⟩ := served_of_runs hruns
    obtain ⟨q, -, -, hturns, -⟩ := hruns
    refine ⟨_, p₁, turns, hresolve, hserved, fun id hid hrefused => ?_, hserved.shows_iff,
      fun hkept x hx hfails => ?_, fun hids => kept_of_nodup hids hturns⟩
    · obtain ⟨r, hr, hfalse⟩ := hserved.refused id hid hrefused
      exact exitCode_of_failure hr (by rw [Result.clean, hfalse, Bool.false_and])
    · obtain ⟨r, hr, hfalse⟩ := hserved.shows_iff.mpr hkept x hx hfails
      exact exitCode_of_failure hr hfalse
  · rw [serve_eq, Act.on_bind] at h
    rcases hresolve : (resolve ids).on p with ⟨f' | out, p₁⟩ <;> rw [hresolve] at h
    · cases h
      exact .inl ⟨_, rfl⟩
    dsimp only at h
    rw [Act.on_bind] at h
    have hbatch := runAll_concludes s force action out.1 hc p₁
    rcases hrun : (s.runAll c force action out.1).on p₁ with ⟨f' | table, p₂⟩ <;>
      rw [hrun] at h hbatch
    · cases h
      exact .inr ⟨out, p₁, rfl, hbatch⟩
    · cases h

end Service

/-- A tweak that copies a file and then makes it. -/
def sampleCopies : Tweak :=
  { id := "a"
    name := .text "A"
    operations := { files :=
      [{ path := .text "x", action := .copy, target := .text "y" },
       { path := .text "x", action := .createFile, content := .text "1" }] } }

/-- A program with a tweak whose first operation fails the first time. -/
def copyingProgram : Program Machine := { sampleProgram with catalog := .memory [sampleCopies] }

/-- The failed copy and the unknown identifier are shown. -/
theorem sample_failures_shown :
    ({} : Control Machine).cancelled = (fun _ => false) ∧
    (["a", "X"].map Text.fold).Nodup ∧
    ∃ results p', (sampleService.serve {} false .apply ["a", "X"]).on copyingProgram =
        (.ok results, p') ∧ (∃ p₁ turns,
      sampleService.Served {} false .apply ["a", "X"] p₁ turns results p' ∧
        ∀ x ∈ turns, x.result.clean = false →
          ∃ r, Assoc.get? x.tweak.id results = some r ∧ r.clean = false) ∧
      (results.map fun x => (x.1, x.2.clean)) = [("X", false), ("a", false)] := by
  have hids : (["a", "X"].map Text.fold).Nodup := by decide +kernel
  refine ⟨rfl, hids, ?_⟩
  have hrun : (sampleService.serve {} false .apply ["a", "X"]).succeeds copyingProgram
      (fun results _ => (results.map fun x => (x.1, x.2.clean)) = [("X", false), ("a", false)]) =
        true := by decide +kernel
  obtain ⟨results, p', hok, hresults⟩ := Act.of_succeeds hrun
  obtain ⟨out, p₁, turns, -, hserved, -, hiff, -, hkept⟩ :=
    (Service.failures_shown sampleService {} rfl false .apply ["a", "X"] copyingProgram).1
      results p' hok
  exact ⟨results, p', hok, ⟨p₁, turns, hserved, hiff.mpr (hkept hids)⟩, of_decide_eq_true hresults⟩

/-- The first run of the tweak fails, and when it is asked for twice nothing of it is shown. -/
theorem sample_failure_lost :
    ((sampleService.engineOf false .apply).runOne Program.sessionPart .apply (fun _ => false)
      sampleCopies).succeeds copyingProgram (fun r _ => !r.clean) = true ∧
    (sampleService.serve {} false .apply ["a", "A"]).succeeds copyingProgram (fun results _ =>
      results.map (fun x => (x.1, x.2.clean)) = [("a", true)] &&
        CommandLine.Console.exitCode results = 0) = true :=
  ⟨by decide +kernel, by decide +kernel⟩

end TweakEngine
