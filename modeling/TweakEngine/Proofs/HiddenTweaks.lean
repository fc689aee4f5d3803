/-
# Hidden tweaks

A configuration hides tweaks.  Applying and reverting by identifier refuse a hidden tweak,
however its identifier is spelled, but what waits on the board is carried out without
looking at the configuration, and hidden tweaks may be queued.  So hidden tweaks are left
alone for as long as none of them waits when what waits is carried out
(`hidden_left_alone`), and otherwise they are not (`sample_hidden_written`).
-/

import TweakEngine.Proofs.PendingChanges

namespace TweakEngine

variable {μ : Type}

namespace Config

/-- The configuration hides the tweak with an identifier. -/
def Hides (c : Config) (tweakId : String) : Prop := c.isDisabled tweakId = .ok true

instance (c : Config) (tweakId : String) : Decidable (c.Hides tweakId) :=
  inferInstanceAs (Decidable (_ = _))

/-- Identifiers are compared ignoring case. -/
theorem isDisabled_congr (c : Config) {a b : String} (h : Text.fold a = Text.fold b) :
    c.isDisabled a = c.isDisabled b := by
  unfold isDisabled
  rw [h]

end Config

/-- The reports of progress do nothing to the machine, and leave the configuration and a catalog
that lists its tweaks. -/
def Control.IsQuiet (c : Control μ) : Prop :=
  ∀ f, c.sink = some f → ∀ progress, (f progress).Along Program.Quiet

theorem Control.IsQuiet.within {c : Control μ} (h : c.IsQuiet) : c.Within Program.Quiet where
  trans := Program.Quiet.trans
  reads := Program.Reads.toQuiet
  sink := h

namespace Service

open Program

variable {s : Service μ} {c : Control μ} {p p' : Program μ} {ids : List String}
  {found : List Tweak} {rejected : Assoc String Result}

/-! ## Finding what may be run -/

theorem isDisabled_on (tweakId : String) (p : Program μ) :
    (isDisabled tweakId).on p = (p.config.isDisabled tweakId, p) := rfl

theorem resolve_go_reads : ∀ (ids : List String) (found : List Tweak)
    (rejected : Assoc String Result), (resolve.go ids found rejected : Task μ _).Along Reads
  | [], _, _ => Reads.refl
  | id :: ids, found, rejected => by
    refine Act.Along.bind (Q := Reads) Reads.trans (find?_reads id) fun t? => ?_
    cases t? with
    | none => exact resolve_go_reads ids _ _
    | some t =>
      refine Act.Along.bind (Q := Reads) Reads.trans (fun p => Reads.refl p) fun hidden => ?_
      cases hidden with
      | true => exact resolve_go_reads ids _ _
      | false => exact resolve_go_reads ids _ _

theorem resolve_reads (ids : List String) : (resolve ids : Task μ _).Along Reads := by
  cases ids with
  | nil => exact Reads.refl
  | cons id ids => exact resolve_go_reads _ _ _

theorem resolve_go_shown : ∀ {ids : List String} {found : List Tweak} {rejected : Assoc String Result}
    {p : Program μ} {out : List Tweak × Assoc String Result},
    (resolve.go ids found rejected).on p = (.ok out, p') →
      (∀ t ∈ found, p.config.isDisabled t.id = .ok false) →
        ∀ t ∈ out.1, p.config.isDisabled t.id = .ok false
  | [], _, _, _, _, h, hfound => by
    cases h
    exact hfound
  | id :: ids, found, rejected, p, out, h, hfound => by
    obtain ⟨t?, p₁, hfind, h⟩ := Act.ok_of_on_bind h
    have hconfig : p₁.config = p.config := by
      have hreads := find?_reads id p
      rw [hfind] at hreads
      exact hreads.config
    rw [← hconfig] at hfound ⊢
    cases t? with
    | none => exact resolve_go_shown h hfound
    | some t =>
      obtain ⟨hidden, p₂, hanswer, h⟩ := Act.ok_of_on_bind h
      rw [isDisabled_on] at hanswer
      obtain ⟨hhidden, hp⟩ := Prod.mk.inj hanswer
      subst hp
      cases hidden with
      | true => exact resolve_go_shown h hfound
      | false =>
        refine resolve_go_shown h fun u hu => ?_
        rcases List.mem_append.mp hu with hu | hu
        · exact hfound u hu
        · rw [List.mem_singleton.mp hu]
          exact hhidden

/-- **Only tweaks that are not hidden are found**. -/
theorem resolve_shown {out : List Tweak × Assoc String Result}
    (h : (resolve ids).on p = (.ok out, p')) :
    ∀ t ∈ out.1, p.config.isDisabled t.id = .ok false := by
  cases ids with
  | nil =>
    cases h
    exact List.forall_mem_nil _
  | cons id ids => exact resolve_go_shown h (List.forall_mem_nil _)

/-! ## Calls of a service -/

/-- What is asked of a service. -/
inductive Order (μ : Type)
  | apply (ids : List String) (c : Control μ) (force : Bool)
  | revert (ids : List String) (c : Control μ)
  | queue (tweakId : String) (action : Action)
  | carryOut (c : Control μ)
  | hide (tweakId : String)

namespace Order

/-- What a service does when it is asked. -/
def run (s : Service μ) : Order μ → Task μ Unit
  | apply ids c force => discard (s.apply ids c force)
  | revert ids c => discard (s.revert ids c)
  | queue tweakId action => discard (onDesk (Desk.queue tweakId action))
  | carryOut c => discard (s.applyPending c)
  | hide tweakId => disable tweakId

/-- The program after what was asked, whether it succeeded or not. -/
def take (s : Service μ) (p : Program μ) (o : Order μ) : Program μ := ((o.run s).on p).2

/-- The reports of progress of an order are quiet. -/
def IsQuiet : Order μ → Prop
  | apply _ c _ | revert _ c | carryOut c => c.IsQuiet
  | queue .. | hide _ => True

/-- The order does not carry out what waits while a hidden tweak waits. -/
def SparesHidden (p : Program μ) : Order μ → Prop
  | carryOut _ => ∀ ch ∈ p.board.pending, ¬p.config.Hides ch.tweakId
  | _ => True

instance (p : Program μ) : (o : Order μ) → Decidable (o.SparesHidden p)
  | carryOut _ => inferInstanceAs (Decidable (∀ ch ∈ p.board.pending, ¬p.config.Hides ch.tweakId))
  | apply .. | revert .. | queue .. | hide _ => isTrue trivial

end Order

/-- The program after several orders. -/
def takeAll (s : Service μ) (orders : List (Order μ)) (p : Program μ) : Program μ :=
  orders.foldl (Order.take s) p

/-- None of the orders carries out what waits while a hidden tweak waits. -/
def SparesHidden (s : Service μ) : List (Order μ) → Program μ → Prop
  | [], _ => True
  | o :: orders, p => o.SparesHidden p ∧ SparesHidden s orders (o.take s p)

instance decidableSparesHidden (s : Service μ) :
    (orders : List (Order μ)) → (p : Program μ) → Decidable (s.SparesHidden orders p)
  | [], _ => isTrue trivial
  | o :: orders, p =>
    have := decidableSparesHidden s orders (o.take s p)
    inferInstanceAs (Decidable (_ ∧ _))

/-- A round of an engine of the service about a tweak that is not hidden when it begins. -/
structure Visible (s : Service μ) (x : Round (Program μ)) : Prop where
  round : ∃ force cancelled, x.Of (s.engineFor force) sessionPart cancelled
  shown : ¬x.before.config.Hides x.tweak.id

/-- Nothing is done to the machine. -/
def Idle (p p' : Program μ) : Prop := p'.session.host.deeds = p.session.host.deeds

variable {rounds : List (Round (Program μ))} {cancelled : Program μ → Bool} {action : Action}

theorem Idle.trans {p'' : Program μ} (h : Idle p p') (h' : Idle p' p'') : Idle p p'' := by
  unfold Idle at *
  exact h'.trans h

/-- Rounds of a quiet course about tweaks that are not hidden at its beginning are visible. -/
theorem visible_of_course (force : Bool) (hc : Course Quiet p rounds p')
    (hrounds : ∀ x ∈ rounds, x.Of (s.engineFor force) sessionPart cancelled)
    (hshown : ∀ x ∈ rounds, ¬p.config.Hides x.tweak.id) :
    Course Idle p rounds p' ∧ ∀ x ∈ rounds, s.Visible x := by
  refine ⟨hc.imp Quiet.deeds, fun x hx => ⟨⟨force, cancelled, hrounds x hx⟩, ?_⟩⟩
  have hconfig : x.before.config = p.config :=
    Course.along_before (P := fun p p' => p'.config = p.config)
      (by intro _ _ _ h h'; exact h'.trans h) Quiet.config
      (fun y hy => by rw [round_after (c := { cancelled }) (hrounds y hy)]) hc x hx
  rw [hconfig]
  exact hshown x hx

/-- A batch over the tweaks with given identifiers leaves hidden tweaks alone. -/
theorem resolved_visible (force : Bool) (hc : c.IsQuiet) {batch : List Tweak → Task μ (Assoc String Result)}
    (hbatch : ∀ tweaks p, ∃ rounds, (s.engineFor force).Batched sessionPart c.cancelled Quiet action
      tweaks rounds p ((batch tweaks).on p))
    {rest : List Tweak × Assoc String Result → Assoc String Result → Task μ (Assoc String Result)}
    (hrest : ∀ out r, (rest out r).Along Quiet) (ids : List String) (p : Program μ) :
    ∃ rounds, Course Idle p rounds
        ((resolve ids >>= fun out => batch out.1 >>= rest out).on p).2 ∧
      ∀ x ∈ rounds, s.Visible x := by
  have hbetween := hc.within.between
  have hreads := (resolve_reads ids p).toQuiet
  rw [Act.on_bind]
  rcases hresolve : (resolve ids).on p with ⟨f | out, p₁⟩ <;> rw [hresolve] at hreads
  · exact ⟨[], hreads.deeds, List.forall_mem_nil _⟩
  dsimp only
  obtain ⟨rounds, h⟩ := hbatch out.1 p₁
  have hshown : ∀ x ∈ rounds, ¬p.config.Hides x.tweak.id := by
    intro x hx hhides
    have hfalse := resolve_shown hresolve x.tweak (h.tweaks.subset (List.mem_map_of_mem hx))
    rw [Config.Hides, hfalse] at hhides
    cases hhides
  refine ⟨rounds, visible_of_course force (hbetween.course_of hreads ?_) h.each hshown⟩
  have hcourse := h.course
  rw [Act.on_bind]
  rcases hrun : (batch out.1).on p₁ with ⟨f | r, p₂⟩ <;> rw [hrun] at hcourse
  · exact hcourse
  · have hlast : Course Quiet p₂ [] _ := hrest out r p₂
    have happended := hbetween.course_append hcourse hlast
    rw [List.append_nil] at happended
    exact happended

theorem apply_visible (hc : c.IsQuiet) (ids : List String) (force : Bool) (p : Program μ) :
    ∃ rounds, Course Idle p rounds ((s.apply ids c force).on p).2 ∧ ∀ x ∈ rounds, s.Visible x :=
  resolved_visible force hc (fun tweaks p => runApply_course hc.within tweaks force p)
    (fun _ _ _ => ⟨rfl, .refl _, rfl⟩) ids p

theorem revert_visible (hc : c.IsQuiet) (ids : List String) (p : Program μ) :
    ∃ rounds, Course Idle p rounds ((s.revert ids c).on p).2 ∧ ∀ x ∈ rounds, s.Visible x :=
  resolved_visible false hc (runBatch_course hc.within (s.engineFor false) .revert)
    (fun _ _ _ => ⟨rfl, .refl _, rfl⟩) ids p

/-- Carrying out what waits leaves hidden tweaks alone when none of them waits. -/
theorem applyPending_visible (hc : c.IsQuiet)
    (hspares : ∀ ch ∈ p.board.pending, ¬p.config.Hides ch.tweakId) :
    ∃ rounds, Course Idle p rounds ((s.applyPending c).on p).2 ∧ ∀ x ∈ rounds, s.Visible x := by
  obtain ⟨applied, reverted, h⟩ := carryOut_course (s := s) hc.within Quiet.catalog
    (p.waiting .apply) (p.waiting .revert) (p.withPending [])
  have hshown : ∀ x ∈ applied ++ reverted, ¬p.config.Hides x.tweak.id := by
    intro x hx hhides
    have hwaits : ∃ ch ∈ p.board.pending, ch.key = x.tweak.key := by
      rcases List.mem_append.mp hx with hx | hx
      · obtain ⟨ch, hch, ht⟩ := List.mem_filterMap.mp (h.applies.tweaks.subset (List.mem_map_of_mem hx))
        exact ⟨ch, List.mem_of_mem_filter hch, (Catalog.known?_key ht).symm⟩
      · obtain ⟨ch, hch, ht⟩ := List.mem_filterMap.mp (h.reverts.tweaks.subset (List.mem_map_of_mem hx))
        exact ⟨ch, List.mem_of_mem_filter hch, (Catalog.known?_key ht).symm⟩
    obtain ⟨ch, hch, hkey⟩ := hwaits
    rw [Config.Hides, ← Config.isDisabled_congr _ hkey] at hhides
    exact hspares ch hch hhides
  refine ⟨applied ++ reverted, visible_of_course false ?_
    (List.forall_mem_append.mpr ⟨h.applies.each, h.reverts.each⟩) hshown⟩
  have hbetween := hc.within.between
  have htaken : Quiet p (p.withPending []) := ⟨rfl, .refl _, rfl⟩
  have hcourse := hbetween.course_of htaken h.course
  rw [applyPending_on, Act.on_bind]
  rcases hrun : (s.carryOut c (p.waiting .apply) (p.waiting .revert)).on (p.withPending []) with
    ⟨f | r, q⟩ <;> rw [hrun] at hcourse
  · exact hcourse
  · have hlast : Course Quiet q [] _ := settle_quiet (p.waiting .apply ++ p.waiting .revert) r q
    have happended := hbetween.course_append hcourse hlast
    rw [List.append_nil] at happended
    exact happended

theorem queue_idle (tweakId : String) (action : Action) :
    (onDesk (Desk.queue tweakId action) : Task μ Bool).Along Idle := by
  intro p
  obtain ⟨d, cs, hreads, hd⟩ := Desk.queue_reads tweakId action (deskPart.get p)
  unfold onDesk
  rw [Part.on_lift, hd]
  exact hreads.deeds

theorem disable_idle (tweakId : String) : (disable tweakId : Task μ Unit).Along Idle := by
  intro p
  unfold disable
  rw [Act.on_bind, Act.on_view]
  dsimp only
  rw [Act.on_bind, Act.on_result]
  cases p.config.disable tweakId <;> rfl

/-- **One order** leaves hidden tweaks alone. -/
theorem take_visible {o : Order μ} (hquiet : o.IsQuiet) (hspares : o.SparesHidden p) :
    ∃ rounds, Course Idle p rounds (o.take s p) ∧ ∀ x ∈ rounds, s.Visible x := by
  cases o with
  | apply ids c force =>
    rw [Order.take, Order.run, Act.on_discard]
    exact apply_visible hquiet ids force p
  | revert ids c =>
    rw [Order.take, Order.run, Act.on_discard]
    exact revert_visible hquiet ids p
  | carryOut c =>
    rw [Order.take, Order.run, Act.on_discard]
    exact applyPending_visible hquiet hspares
  | queue tweakId action =>
    refine ⟨[], ?_, List.forall_mem_nil _⟩
    rw [Order.take, Order.run, Act.on_discard]
    exact queue_idle tweakId action p
  | hide tweakId => exact ⟨[], disable_idle tweakId p, List.forall_mem_nil _⟩

/-- **Hidden tweaks are left alone.**  Whatever is asked of a service, one thing after the
other, with any spelling of identifiers: as long as no hidden tweak waits when what waits is
carried out, the machine is worked on only in rounds about tweaks that are not hidden at that
time. -/
theorem hidden_left_alone (s : Service μ) : ∀ (orders : List (Order μ)) (p : Program μ),
    (∀ o ∈ orders, o.IsQuiet) → s.SparesHidden orders p →
      ∃ rounds, Course Idle p rounds (s.takeAll orders p) ∧ ∀ x ∈ rounds, s.Visible x
  | [], p, _, _ => ⟨[], rfl, List.forall_mem_nil _⟩
  | o :: orders, p, hquiet, hspares => by
    obtain ⟨hfirst, hrest⟩ := List.forall_mem_cons.mp hquiet
    obtain ⟨xs, hxs, hall⟩ := take_visible (s := s) hfirst hspares.1
    obtain ⟨ys, hys, hall'⟩ := hidden_left_alone s orders (o.take s p) hrest hspares.2
    exact ⟨xs ++ ys, hxs.append (Q := Idle) Idle.trans hys, List.forall_mem_append.mpr ⟨hall, hall'⟩⟩

end Service
/-- A program with three tweaks, one of which is hidden. -/
def hidingProgram : Program Machine :=
  { sampleProgram with
    config := { Config.default "/" with disabled := .list [.text "A"] }
    board := sampleBoard [] }

/-- The hidden tweak is asked for and refused, and another one is carried out. -/
def sampleOrders : List (Service.Order Machine) :=
  [.apply ["a", "B"] {} true, .queue "c" .apply, .carryOut {}, .revert ["a"] {}]

theorem sample_hidden_spared :
    (∀ o ∈ sampleOrders, o.IsQuiet) ∧ sampleService.SparesHidden sampleOrders hidingProgram ∧
      ∃ rounds, Course Service.Idle hidingProgram rounds
          (sampleService.takeAll sampleOrders hidingProgram) ∧
        ∀ x ∈ rounds, sampleService.Visible x := by
  have hsilent : ({} : Control Machine).IsQuiet := fun f hf => by cases hf
  have hquiet : ∀ o ∈ sampleOrders, o.IsQuiet := by
    simp only [sampleOrders, List.forall_mem_cons, Service.Order.IsQuiet, true_and, hsilent]
    exact List.forall_mem_nil _
  have hspares : sampleService.SparesHidden sampleOrders hidingProgram := by decide +kernel
  exact ⟨hquiet, hspares, Service.hidden_left_alone sampleService sampleOrders hidingProgram hquiet hspares⟩

/-- Applying the hidden tweak by its identifier changes nothing, but when it is queued it is
applied. -/
theorem sample_hidden_written :
    hidingProgram.config.Hides "a" ∧
    (sampleService.takeAll [.apply ["a"] {} true, .revert ["A"] {}]
      hidingProgram).session.host.outline = [] ∧
    (sampleService.takeAll [.queue "a" .apply, .carryOut {}] hidingProgram).session.host.outline =
      [some "set HKCU\\Demo\\a = 1"] := by
  decide +kernel

end TweakEngine
