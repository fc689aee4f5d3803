/-
# The protocol of a batch

In a batch each tweak takes a turn: the token is looked at, a report says that the tweak is
begun, the call is made, and a report says how it ended (`BatchTurn.Taken`).  A batch in which no
call raises is a row of turns of the first of its tweaks, which ends with the list or when the token
is seen cancelled, and its results are those of the turns (`Protocol`).

A sink that raises adds nothing but a message.  Where nothing looks at messages (`Deaf`), sinks
that differ only in raising give the same results and leave the same state behind, up to messages
(`Part.hushed`).
-/

import TweakEngine.Execution.Batch
import TweakEngine.Proofs.HushedCalls
import TweakEngine.Proofs.Tables

namespace TweakEngine

open Session

namespace Part

variable {S T : Type}

/-- What is put into a part is found in it, and nothing else is changed. -/
structure Lawful (p : Part S T) : Prop where
  get_set : ∀ t s, p.get (p.set t s) = t
  set_get : ∀ s, p.set (p.get s) s = s
  set_set : ∀ t u s, p.set t (p.set u s) = p.set t s

/-- The whole without the messages in a part. -/
def hushed {μ : Type} (p : Part S (Session μ)) (s : S) : S := p.set (p.get s).hushed s

namespace Lawful

variable {μ : Type} {p : Part S (Session μ)} {s t : S}

theorem hushed_eq (hp : p.Lawful) (h : p.hushed s = p.hushed t) :
    (p.get s).hushed = (p.get t).hushed ∧ ∀ u, p.set u s = p.set u t := by
  refine ⟨?_, fun u => ?_⟩
  · have hget := congrArg p.get h
    rwa [hushed, hushed, hp.get_set, hp.get_set] at hget
  · have hset := congrArg (p.set u) h
    rwa [hushed, hushed, hp.set_set, hp.set_set] at hset

theorem hushed_set (hp : p.Lawful) (u : Session μ) : p.hushed (p.set u s) = p.set u.hushed s := by
  rw [hushed, hp.get_set, hp.set_set]

/-- What does not look at the messages in a part does not look at them in the whole. -/
theorem dependsOn_lift (hp : p.Lawful) {α : Type} {a : Work μ α} (ha : a.DependsOn Session.hushed) :
    (p.lift a).DependsOn p.hushed := by
  intro s t h
  obtain ⟨hget, hset⟩ := hp.hushed_eq h
  obtain ⟨hr, hafter⟩ := ha _ _ hget
  rw [Part.on_lift, Part.on_lift]
  exact ⟨hr, by rw [hp.hushed_set, hp.hushed_set, hafter, hset]⟩

/-- A message is not there without the messages. -/
theorem hushed_say (hp : p.Lawful) (level : Level) (speaker text : String) (s : S) :
    p.hushed ((p.lift (Session.say level speaker text)).on s).2 = p.hushed s := by
  rw [Part.on_lift, hp.hushed_set]
  rfl

end Lawful
end Part

variable {μ S : Type}

/-- What a sink leaves behind, whether it raises or not. -/
def sinkEffect (sink : Option (Progress → Act S Unit)) (p : Progress) (s : S) : S :=
  match sink with
  | none => s
  | some f => ((f p).on s).2

namespace Engine

variable {e : Engine μ} {part : Part S (Session μ)} {action : Action}
  {sink : Option (Progress → Act S Unit)} {cancelled : S → Bool} {total : Nat}

/-- A report does not fail.  It leaves what the sink leaves behind, and says so if the sink
raises. -/
theorem report_on (part : Part S (Session μ)) (sink : Option (Progress → Act S Unit))
    (p : Progress) (s : S) : ∃ s', (report part sink p).on s = (.ok (), s') ∧
    (s' = sinkEffect sink p s ∨ ∃ level speaker text,
      s' = ((part.lift (say level speaker text)).on (sinkEffect sink p s)).2) := by
  unfold report sinkEffect
  cases sink with
  | none => exact ⟨s, rfl, .inl rfl⟩
  | some f =>
    dsimp only
    rw [Act.on_bind, Act.on_attempt]
    rcases (f p).on s with ⟨failure | _, t⟩
    · exact ⟨_, rfl, .inr ⟨_, _, _, rfl⟩⟩
    · exact ⟨t, rfl, .inl rfl⟩

/-- What is done with a tweak is a call in the part. -/
theorem runOne_lifts (t : Tweak) (s : S) : (e.runOne part action cancelled t).on s =
    (part.lift (e.call action (part.seen cancelled s) t)).on s := by
  rw [runOne, Act.on_bind, Act.on_view]
  cases action <;> rfl

end Engine

/-! ## Turns -/

/-- The turn of a tweak in a batch. -/
structure BatchTurn (S : Type) where
  tweak : Tweak
  /-- The state in which the token is looked at. -/
  begun : S
  /-- The state in which the call is made. -/
  before : S
  result : Result
  after : S
  ended : S

namespace BatchTurn

/-- The report that the tweak is begun, after `index` others. -/
def opening (x : BatchTurn S) (action : Action) (total index : Nat) : Progress :=
  ⟨total, index, x.tweak.name, Engine.startedWord action⟩

/-- The report of how the tweak ended. -/
def closing (x : BatchTurn S) (action : Action) (total index : Nat) : Progress :=
  ⟨total, index + 1, x.tweak.name, Engine.finishedWord action x.result⟩

/-- The result of the turn under the identifier of its tweak. -/
def entry (x : BatchTurn S) : String × Result := (x.tweak.id, x.result)

/-- The reports of turns after `index` others. -/
def reports (action : Action) (total : Nat) : Nat → List (BatchTurn S) → List Progress
  | _, [] => []
  | index, x :: xs =>
    x.opening action total index :: x.closing action total index ::
      reports action total (index + 1) xs

section

variable (e : Engine μ) (part : Part S (Session μ)) (action : Action)
  (sink : Option (Progress → Act S Unit)) (cancelled : S → Bool) (total : Nat)

/-- The turn is taken after `index` others: the token is not cancelled, the tweak is reported as
begun, the call is made, and its end is reported. -/
structure Taken (index : Nat) (x : BatchTurn S) : Prop where
  free : cancelled x.begun = false
  opened : (Engine.report part sink (x.opening action total index)).on x.begun = (.ok (), x.before)
  called : (e.runOne part action cancelled x.tweak).on x.before = (.ok x.result, x.after)
  closed : (Engine.report part sink (x.closing action total index)).on x.after = (.ok (), x.ended)

/-- The turns are taken one after the other, after `index` others. -/
def Row : Nat → List (BatchTurn S) → S → S → Prop
  | _, [], s, s' => s = s'
  | index, x :: xs, s, s' => x.begun = s ∧ x.Taken e part action sink cancelled total index ∧
      Row (index + 1) xs x.ended s'

/-- How a batch ends when `rest` is what is left after `index` turns: with the list, because the
token is seen cancelled, or by a call that raises. -/
inductive Ends (index : Nat) : List Tweak → S → Except Failure Unit → S → Prop
  | finished (s : S) : Ends index [] s (.ok ()) s
  | stopped {t : Tweak} {rest : List Tweak} {s : S} (seen : cancelled s = true) :
      Ends index (t :: rest) s (.ok ()) ((part.lift (say .info Engine.speaker
        ("Batch cancelled with " ++ toString (total - index) ++ " tweaks remaining"))).on s).2
  | raised {t : Tweak} {rest : List Tweak} {s s₁ s₂ : S} {f : Failure} (free : cancelled s = false)
      (opened : (Engine.report part sink ⟨total, index, t.name, Engine.startedWord action⟩).on s =
        (.ok (), s₁))
      (call : (e.runOne part action cancelled t).on s₁ = (.error f, s₂)) :
      Ends index (t :: rest) s (.error f) s₂

end
end BatchTurn

namespace Engine

variable {e : Engine μ} {part : Part S (Session μ)} {action : Action}
  {sink : Option (Progress → Act S Unit)} {cancelled : S → Bool} {total : Nat}

open BatchTurn (Row Ends)

variable (e part action sink cancelled) in
/-- The rest of a batch is a row of turns of the first of its tweaks. -/
theorem runFrom_row (total : Nat) (tweaks : List Tweak) :
    ∀ (index : Nat) (results : Assoc String Result) (s : S), ∃ turns rest s₁ r s',
      tweaks = turns.map BatchTurn.tweak ++ rest ∧
      Row e part action sink cancelled total index turns s s₁ ∧
      Ends e part action sink cancelled total (index + turns.length) rest s₁ r s' ∧
      (e.runFrom part action sink cancelled total index tweaks results).on s =
        (r.map fun _ => Assoc.update results (turns.map BatchTurn.entry), s') := by
  induction tweaks with
  | nil => exact fun index results s => ⟨[], [], s, .ok (), s, rfl, rfl, .finished s, rfl⟩
  | cons t tweaks ih =>
    intro index results s
    unfold runFrom
    rw [Act.on_bind, Act.on_view]
    dsimp only
    cases hc : cancelled s with
    | true => exact ⟨[], t :: tweaks, s, .ok (), _, rfl, rfl, .stopped hc, rfl⟩
    | false =>
      obtain ⟨s₁, hopened, -⟩ :=
        report_on part sink ⟨total, index, t.name, startedWord action⟩ s
      rw [if_neg Bool.false_ne_true, Act.on_bind_of_ok hopened]
      rcases hcall : (e.runOne part action cancelled t).on s₁ with ⟨f | r, s₂⟩
      · refine ⟨[], t :: tweaks, s, .error f, s₂, rfl, rfl, .raised hc hopened hcall, ?_⟩
        rw [Act.on_bind, hcall]
        rfl
      obtain ⟨s₃, hclosed, -⟩ :=
        report_on part sink ⟨total, index + 1, t.name, finishedWord action r⟩ s₂
      obtain ⟨turns, rest, s₄, r', s', htweaks, hrow, hends, hrun⟩ :=
        ih (index + 1) (Assoc.put t.id r results) s₃
      rw [Act.on_bind_of_ok hcall, Act.on_bind_of_ok hclosed]
      refine ⟨⟨t, s, s₁, r, s₂, s₃⟩ :: turns, rest, s₄, r', s', congrArg (t :: ·) htweaks,
        ⟨rfl, ⟨hc, hopened, hcall, hclosed⟩, hrow⟩, ?_, hrun⟩
      rwa [List.length_cons, ← Nat.add_assoc, Nat.add_right_comm]

/-! ## The token in a batch -/

/-- Nothing that calls consist of, and nothing that the sink does, takes a cancellation back. -/
structure Latches (e : Engine μ) (part : Part S (Session μ))
    (sink : Option (Progress → Act S Unit)) (cancelled : S → Bool) : Prop where
  calls : ∀ s, e.Latched (part.seen cancelled s)
  sink : ∀ p s, cancelled s = true → cancelled (sinkEffect sink p s) = true

/-- Reporting does not take a cancellation back. -/
theorem Latches.report (h : e.Latches part sink cancelled) (hpart : part.Lawful) (p : Progress) :
    (report part sink p).Preserves (cancelled · = true) := by
  intro s hs
  obtain ⟨s', hreport, rfl | ⟨level, speaker, text, rfl⟩⟩ := report_on part sink p s
  · rw [hreport]
    exact h.sink p s hs
  · rw [hreport]
    refine Latched.calls (h.calls (sinkEffect sink p s)) (.say level speaker text) _ ?_
    show cancelled (part.set (part.get _) _) = true
    rw [hpart.set_get]
    exact h.sink p s hs

/-- What a call in the part does. -/
theorem of_runOne (hpart : part.Lawful) {t : Tweak} {s s' : S} {r : Result}
    (h : (e.runOne part action cancelled t).on s = (.ok r, s')) :
    (e.call action (part.seen cancelled s) t).on (part.get s) = (.ok r, part.get s') ∧
      s' = part.set (part.get s') s := by
  rw [runOne_lifts] at h
  obtain ⟨u, hcall, rfl⟩ := Part.ok_of_on_lift h
  rw [hpart.get_set]
  exact ⟨hcall, rfl⟩

theorem Latches.conducts (h : e.Latches part sink cancelled) (hpart : part.Lawful)
    {turns : List (BatchTurn S)} :
    ∀ {index : Nat} {s s' : S}, Row e part action sink cancelled total index turns s s' →
      ∀ x ∈ turns, e.Conducts action (part.seen cancelled x.before) x.tweak (part.get x.before)
        x.result (part.get x.after) := by
  induction turns with
  | nil => exact fun _ => List.forall_mem_nil _
  | cons x xs ih =>
    rintro index s s' ⟨-, hx, hrow⟩
    exact List.forall_mem_cons.mpr ⟨call_conducts (h.calls x.before) (of_runOne hpart hx.called).1,
      ih hrow⟩

/-- A turn whose call was stopped ends with the token cancelled. -/
theorem Latches.ended (h : e.Latches part sink cancelled) (hpart : part.Lawful) {index : Nat}
    {x : BatchTurn S} (hx : x.Taken e part action sink cancelled total index)
    (hr : x.result.cancelled = true) : cancelled x.ended = true := by
  obtain ⟨hcall, hafter⟩ := of_runOne hpart hx.called
  obtain ⟨ran, hran, -⟩ := call_conducts (h.calls x.before) hcall
  rw [hr] at hran
  have hcancelled : cancelled x.after = true := by
    rw [hafter]
    exact hran.cancelled
  exact (h.report hpart _).of_on hx.closed hcancelled

/-- Only the last turn can have been stopped. -/
theorem Latches.pairwise (h : e.Latches part sink cancelled) (hpart : part.Lawful)
    {turns : List (BatchTurn S)} :
    ∀ {index : Nat} {s s' : S}, Row e part action sink cancelled total index turns s s' →
      turns.Pairwise fun x _ => x.result.cancelled = false := by
  induction turns with
  | nil => exact fun _ => .nil
  | cons x xs ih =>
    rintro index s s' ⟨-, hx, hrow⟩
    refine List.pairwise_cons.mpr ⟨fun y hy => ?_, ih hrow⟩
    obtain ⟨z, zs, rfl⟩ := List.exists_cons_of_ne_nil (List.ne_nil_of_mem hy)
    obtain ⟨hz, hfree, -⟩ := hrow
    by_contra hr
    rw [Bool.not_eq_false] at hr
    cases (h.ended hpart hx hr).symm.trans (hz ▸ hfree.free)

/-! ## Reports -/

/-- What a sink writes down of its reports is the reports of the turns. -/
theorem log_row {f : Progress → Act S Unit} {log : S → List Progress}
    (hsink : ∀ p s, log ((f p).on s).2 = log s ++ [p]) (hlog : ∀ u s, log (part.set u s) = log s)
    {turns : List (BatchTurn S)} : ∀ {index : Nat} {s s' : S},
      Row e part action (some f) cancelled total index turns s s' →
        log s' = log s ++ BatchTurn.reports action total index turns := by
  have hreport : ∀ {p s s'}, (report part (some f) p).on s = (.ok (), s') →
      log s' = log s ++ [p] := by
    intro p s s' h
    obtain ⟨s'', hreport, hs''⟩ := report_on part (some f) p s
    cases hreport.symm.trans h
    obtain rfl | ⟨level, speaker, text, rfl⟩ := hs''
    · exact hsink p s
    · exact (hlog _ _).trans (hsink p s)
  induction turns with
  | nil =>
    rintro index s s' rfl
    exact (List.append_nil _).symm
  | cons x xs ih =>
    rintro index s s' ⟨rfl, hx, hrow⟩
    have hcalled : log x.after = log x.before := by
      have hcalled := hx.called
      rw [runOne_lifts] at hcalled
      obtain ⟨u, -, hu⟩ := Part.ok_of_on_lift hcalled
      rw [← hu, hlog]
    rw [ih hrow, hreport hx.closed, hcalled, hreport hx.opened]
    simp [BatchTurn.reports]

/-! ## Sinks that raise -/

/-- Nothing looks at messages: neither the engine nor the token nor the sink. -/
structure DeafBatch (e : Engine μ) (part : Part S (Session μ))
    (sink : Option (Progress → Act S Unit)) (cancelled : S → Bool) : Prop where
  engine : e.Deaf
  token : ∀ s t, part.hushed s = part.hushed t → cancelled s = cancelled t
  sink : ∀ p s t, part.hushed s = part.hushed t →
    part.hushed (sinkEffect sink p s) = part.hushed (sinkEffect sink p t)

/-- Up to messages a report leaves what the sink leaves behind. -/
theorem hushed_report (hpart : part.Lawful) (sink : Option (Progress → Act S Unit)) (p : Progress)
    (s : S) : ∃ s', (report part sink p).on s = (.ok (), s') ∧
      part.hushed s' = part.hushed (sinkEffect sink p s) := by
  obtain ⟨s', hreport, rfl | ⟨level, speaker, text, rfl⟩⟩ := report_on part sink p s
  · exact ⟨_, hreport, rfl⟩
  · exact ⟨_, hreport, hpart.hushed_say level speaker text _⟩

theorem DeafBatch.runOne (hpart : part.Lawful) (h : DeafBatch e part sink cancelled)
    (action : Action) (t : Tweak) :
    (e.runOne part action cancelled t).DependsOn part.hushed := by
  intro s s' hs
  obtain ⟨-, hset⟩ := hpart.hushed_eq hs
  have hseen : part.seen cancelled s = part.seen cancelled s' :=
    funext fun u => congrArg cancelled (hset u)
  have htest : ∀ u v : Session μ, u.hushed = v.hushed →
      part.seen cancelled s' u = part.seen cancelled s' v := fun u v huv =>
    h.token _ _ (by rw [hpart.hushed_set, hpart.hushed_set, huv])
  rw [runOne_lifts, runOne_lifts, hseen]
  exact hpart.dependsOn_lift (h.engine.call htest action t) s s' hs

/-- Batches with sinks that leave the same behind give the same and leave the same behind, up to
messages. -/
theorem runFrom_hushed (hpart : part.Lawful) (h : DeafBatch e part sink cancelled)
    {other : Option (Progress → Act S Unit)}
    (hother : ∀ p s, sinkEffect other p s = sinkEffect sink p s) (total : Nat)
    (tweaks : List Tweak) : ∀ (index : Nat) (results : Assoc String Result) (s s' : S),
      part.hushed s = part.hushed s' →
      let run sink := e.runFrom part action sink cancelled total index tweaks results
      ((run sink).on s).1 = ((run other).on s').1 ∧
        part.hushed ((run sink).on s).2 = part.hushed ((run other).on s').2 := by
  induction tweaks with
  | nil => exact fun index results s s' hs => ⟨rfl, hs⟩
  | cons t tweaks ih =>
    intro index results s s' hs
    dsimp only
    unfold runFrom
    rw [Act.on_bind, Act.on_bind, Act.on_view, Act.on_view]
    dsimp only
    rw [← h.token s s' hs]
    split
    · refine ⟨rfl, ?_⟩
      exact (hpart.hushed_say _ _ _ s).trans (hs.trans (hpart.hushed_say _ _ _ s').symm)
    have hreports : ∀ (p : Progress) (s s' : S), part.hushed s = part.hushed s' → ∃ s₁ s₁',
        (report part sink p).on s = (.ok (), s₁) ∧ (report part other p).on s' = (.ok (), s₁') ∧
          part.hushed s₁ = part.hushed s₁' := by
      intro p s s' hs
      obtain ⟨s₁, hreport, hs₁⟩ := hushed_report hpart sink p s
      obtain ⟨s₁', hreport', hs₁'⟩ := hushed_report hpart other p s'
      exact ⟨s₁, s₁', hreport, hreport', by rw [hs₁, hs₁', hother, h.sink p s s' hs]⟩
    obtain ⟨s₁, s₁', hopened, hopened', hs₁⟩ :=
      hreports ⟨total, index, t.name, startedWord action⟩ s s' hs
    rw [Act.on_bind_of_ok hopened, Act.on_bind_of_ok hopened', Act.on_bind, Act.on_bind]
    have hcalls := h.runOne hpart action t s₁ s₁' hs₁
    revert hcalls
    rcases (e.runOne part action cancelled t).on s₁ with ⟨f | r, s₂⟩ <;>
      rcases (e.runOne part action cancelled t).on s₁' with ⟨f' | r', s₂'⟩ <;>
      rintro ⟨hr, hs₂⟩ <;> cases hr
    · exact ⟨rfl, hs₂⟩
    obtain ⟨s₃, s₃', hclosed, hclosed', hs₃⟩ :=
      hreports ⟨total, index + 1, t.name, finishedWord action r⟩ s₂ s₂' hs₂
    dsimp only
    rw [Act.on_bind_of_ok hclosed, Act.on_bind_of_ok hclosed']
    exact ih (index + 1) (Assoc.put t.id r results) s₃ s₃' hs₃

/-! ## The protocol -/

/-- A batch goes by the protocol. -/
structure Protocol (e : Engine μ) (part : Part S (Session μ)) (action : Action)
    (tweaks : List Tweak) (sink : Option (Progress → Act S Unit)) (cancelled : S → Bool) (s : S)
    (turns : List (BatchTurn S)) (out : Except Failure (Assoc String Result) × S) : Prop where
  /-- The first of the tweaks take their turns, until the list or the token ends the batch or a
  call raises; the results are those of the turns. -/
  course : ∃ rest s₁ r, tweaks = turns.map BatchTurn.tweak ++ rest ∧
    Row e part action sink cancelled tweaks.length 0 turns s s₁ ∧
    Ends e part action sink cancelled tweaks.length turns.length rest s₁ r out.2 ∧
    out.1 = r.map fun _ => turns.map BatchTurn.entry
  /-- Only the last result can be one of a call that was stopped. -/
  last : turns.Pairwise fun x _ => x.result.cancelled = false
  /-- No operation runs after the token is seen cancelled. -/
  conducts : ∀ x ∈ turns, e.Conducts action (part.seen cancelled x.before) x.tweak
    (part.get x.before) x.result (part.get x.after)
  /-- A sink that writes its reports down finds two for each turn. -/
  reports : ∀ f, sink = some f → ∀ log : S → List Progress,
    (∀ p s, log ((f p).on s).2 = log s ++ [p]) → (∀ u s, log (part.set u s) = log s) →
      ∀ results, out.1 = .ok results →
        log out.2 = log s ++ BatchTurn.reports action tweaks.length 0 turns

end Engine

/-! ## A batch that is stopped by its sink -/

/-- Two tweaks that make a key each. -/
def samplePair : List Tweak := ["a", "b"].map fun id =>
  { id
    name := .text id
    operations :=
      { registry := [{ hive := .currentUser, keyPath := .text id, action := .createKey }] } }

/-- A session beside a token. -/
def besideToken : Part (Session Machine × Bool) (Session Machine) := ⟨Prod.fst, fun t s => (t, s.2)⟩

theorem besideToken_lawful : besideToken.Lawful := ⟨fun _ _ => rfl, fun _ => rfl, fun _ _ _ => rfl⟩

/-- A sink that cancels the token when one tweak is done, and raises or not. -/
def sampleSink (raises : Bool) (p : Progress) : Act (Session Machine × Bool) Unit := Act.of fun s =>
  (if raises then .error .stopped else .ok (), (s.1, s.2 || p.completed == 1))

/-- A session on an empty machine beside a token that is not cancelled. -/
def sampleHall : Session Machine × Bool := ({ host := { machine := {} } }, false)

end TweakEngine
