/-
# What stops a call about restore points

The platform's shell is asked about restore points, and what it writes about them is read as JSON.
Whether there are any is always answered.  The list of them cannot be given when the text holds an
integer that is too long to be read, a value without items, or an entry with a number or a date
that the platform cannot hold (`RestorePoint.Trips`); everything else that is wrong with the text
is only said.  Making a restore point ends with such a list, and so the batch for which one is made
goes on exactly when it is not in the way (`Service.restorePoint_settles`).

With a bare number for a list, no restore point is listed and no tweak of a batch is applied
(`sample_no_batch`).
-/

import TweakEngine.Proofs.SaidFailures
import TweakEngine.Proofs.PendingChanges

namespace TweakEngine

variable {μ : Type}

namespace Act

variable {σ α β : Type} {a : Act σ α} {s t : σ} {f : Failure}

theorem not_returns_of_error {k : α → Act σ β} (h : a.on s = (.error f, t)) :
    ¬(a >>= k).Returns s := by
  rintro ⟨x, u, hx⟩
  rw [on_bind, h] at hx
  cases hx

end Act

/-! ## Outcomes of commands -/

/-- What the process wrote can be read as texts. -/
def Answer.Legible : Answer → Prop
  | ended _ stdout stderr => stdout ≠ none ∧ stderr ≠ none
  | _ => True

/-- The outcome of a command with this answer. -/
def Answer.outcome : Answer → ShellResult
  | ended code stdout stderr =>
    { success := code == 0
      output := Text.trim (stdout.getD "")
      error := if code = 0 then "" else Text.trim (stderr.getD "") }
  | timedOut _ => { success := false, error := "Command timed out" }
  | failed e => { success := false, error := e.message }

namespace Host

variable {h h' : Host μ}

/-- What processes write can be read as texts. -/
def Legible (h : Host μ) : Prop := ∀ a ∈ h.answers, a.Legible

/-- The outcome of the command that comes after the next `n` ones. -/
def reply (h : Host μ) (n : Nat) : ShellResult := ((h.answers.drop n).headD .quiet).outcome

theorem Legible.next (hl : h.Legible) : (h.answers.headD .quiet).Legible := by
  cases hanswers : h.answers with
  | nil => exact ⟨nofun, nofun⟩
  | cons a rest => exact hl a (hanswers ▸ List.mem_cons_self)

/-- The host after a process was run. -/
def ran (h : Host μ) (argv : List Datum) (timeout : Datum) : Host μ :=
  { h with answers := h.answers.tail, trail := .ran argv timeout :: h.trail }

theorem Legible.ran (hl : h.Legible) (argv : List Datum) (timeout : Datum) :
    (h.ran argv timeout).Legible := fun a ha => hl a (List.mem_of_mem_tail ha)

theorem reply_ran (argv : List Datum) (timeout : Datum) (n : Nat) :
    (h.ran argv timeout).reply n = h.reply (n + 1) := by
  rw [reply, reply, Host.ran, ← List.drop_one, List.drop_drop, Nat.add_comm]

/-- A command whose output can be read gives its outcome. -/
theorem command_on (hl : h.Legible) (argv : List Datum) (timeout : Datum) :
    (command argv timeout).on h = (.ok (h.reply 0), h.ran argv timeout) := by
  have hrun : (run argv timeout).on h = (.ok (h.answers.headD .quiet), h.ran argv timeout) := rfl
  have hnext := hl.next
  rw [command, Act.on_bind_of_ok hrun, reply, List.drop_zero]
  revert hnext
  cases h.answers.headD .quiet with
  | timedOut d => exact fun _ => rfl
  | failed e => exact fun _ => rfl
  | ended code stdout stderr =>
    intro hnext
    obtain ⟨out, rfl⟩ := Option.ne_none_iff_exists'.mp hnext.1
    obtain ⟨err, rfl⟩ := Option.ne_none_iff_exists'.mp hnext.2
    by_cases hcode : code = 0
    · subst hcode
      rfl
    · simp only [Answer.outcome, written, Act.on_bind, Act.on_result, if_neg hcode,
        Option.getD_some, Act.on_pure]

end Host

open RestorePoint

/-- The platform says that it makes no restore points. -/
def ShellResult.turnsOff (r : ShellResult) : Bool :=
  r.success && match Decimal.readInt r.output with
    | .ok n => n == 0
    | .error _ => false

/-! ## Entries that the platform cannot hold -/

namespace RestorePoint

/-- The platform cannot hold a moment so many milliseconds after the beginning of 1970. -/
def TooLate (millis : Int) : Prop :=
  Decimal.isInfinite (Decimal.ofInt millis / 1000.0) = true ∨
    endOfYears ≤ (Decimal.truncate? (Decimal.ofInt millis / 1000.0)).getD 0

/-- The number of milliseconds in a date that is written with them. -/
def millisOf? (d : Datum) : Option Int :=
  let text := if d.truthy then d.display else ""
  let millis := upTo '-' (upTo '+' (upTo ')' (upTo '(' (after '(' text.toList))))
  if Text.contains text "/Date(" then (Decimal.readInt (String.ofList millis)).toOption else none

/-- The entries of a list; an object alone is one entry. -/
def entriesOf (d : Datum) : List Datum :=
  match d with
  | .object fields => [.object fields]
  | d => d.iterate.toOption.getD []

/-- The entry has a number or a date that the platform cannot hold. -/
inductive Overflows : Datum → Prop
  | number {fields x} (h : Assoc.get? "SequenceNumber" fields = some (.float x))
      (hx : Decimal.isInfinite x = true) : Overflows (.object fields)
  | date {fields n millis} (h : ((Assoc.get? "SequenceNumber" fields).getD (.int 0)).toInt = .ok n)
      (hdate : millisOf? ((Assoc.get? "CreationTime" fields).getD .null) = some millis)
      (hlate : TooLate millis) : Overflows (.object fields)

open Failure (Only)

theorem only_error {α : Type} {caught : Failure → Bool} {f : Failure} :
    Only caught (.error f : Except Failure α) ↔ caught f = true := ⟨fun h => h f rfl, .error⟩

/-- **Only an infinite number** cannot be made an integer without a fault of its entry. -/
theorem toInt_only {d : Datum} :
    Only isFault d.toInt ↔ ∀ x, d = .float x → ¬Decimal.isInfinite x = true := by
  have hread : ∀ (shown : String) (r : Except Decimal.NumeralError Int),
      Only isFault (r.mapError (Datum.intRefusal shown)) := by
    intro shown r
    cases r with
    | ok n => exact .ok n
    | error e => cases e <;> exact .error rfl
  cases d with
  | float x =>
    rw [show (∀ y, Datum.float x = .float y → ¬Decimal.isInfinite y = true) ↔
      ¬Decimal.isInfinite x = true from ⟨fun h => h x rfl, fun h y hy => Datum.float.inj hy ▸ h⟩]
    unfold Datum.toInt Decimal.truncate? Decimal.isInfinite
    dsimp only
    cases Decimal.Parts.ofFloat x with
    | finite => exact iff_of_true (.ok _) Bool.false_ne_true
    | infinite => exact iff_of_false (fun h => Bool.false_ne_true (only_error.mp h)) fun h => h rfl
    | notANumber => exact iff_of_true (.error rfl) Bool.false_ne_true
  | text s => exact iff_of_true (hread _ _) nofun
  | bytes bs => exact iff_of_true (hread _ _) nofun
  | bool | int => exact iff_of_true (.ok _) nofun
  | null | list | object | tuple | registry => exact iff_of_true (.error rfl) nofun

theorem ofMillis_only {millis : Int} : Only isFault (ofMillis millis) ↔ ¬TooLate millis := by
  unfold ofMillis TooLate
  dsimp only
  generalize Decimal.ofInt millis / 1000.0 = seconds
  generalize (Decimal.truncate? seconds).getD 0 = whole
  have hfails : ∀ f : Failure, isFault f = false →
      ¬Only isFault (.error f : Except Failure Moment) :=
    fun f hf h => Bool.false_ne_true (hf.symm.trans (h f rfl))
  have horder : endOfYears ≤ endOfTime := by decide
  by_cases hinfinite : Decimal.isInfinite seconds = true
  · rw [if_pos hinfinite]
    exact iff_of_false (hfails _ rfl) fun h => h (.inl hinfinite)
  rw [if_neg hinfinite]
  by_cases htime : endOfTime ≤ whole
  · rw [if_pos htime]
    exact iff_of_false (hfails _ rfl) fun h => h (.inr (Int.le_trans horder htime))
  rw [if_neg htime]
  by_cases hyears : endOfYears ≤ whole
  · rw [if_pos hyears]
    exact iff_of_false (hfails _ rfl) fun h => h (.inr hyears)
  rw [if_neg hyears]
  refine iff_of_true ?_ (not_or.mpr ⟨hinfinite, hyears⟩)
  split
  · exact .error rfl
  · exact .ok _

theorem dateOf_only {d : Datum} :
    Only isFault (dateOf d) ↔ ∀ millis, millisOf? d = some millis → ¬TooLate millis := by
  unfold dateOf millisOf?
  dsimp only
  generalize (if d.truthy then d.display else "") = text
  by_cases hmarked : Text.contains text "/Date(" = true
  · rw [if_pos hmarked, if_pos hmarked]
    cases Decimal.readInt _ with
    | error e => exact iff_of_true (.ok _) nofun
    | ok n =>
      have hsame : Only isFault (some <$> ofMillis n) ↔ Only isFault (ofMillis n) := by
        cases ofMillis n with
        | ok x => exact iff_of_true (.ok _) (.ok _)
        | error f => exact only_error.trans only_error.symm
      rw [hsame, ofMillis_only]
      exact ⟨fun h millis hn => Option.some.inj hn ▸ h, fun h => h n rfl⟩
  · rw [if_neg hmarked, if_neg hmarked]
    exact iff_of_true (.ok _) nofun

/-- **Exactly the entries with a number or a date that the platform cannot hold** are not passed
over. -/
theorem ofDatum_only {d : Datum} : Only isFault (ofDatum d) ↔ ¬Overflows d := by
  cases d with
  | object fields =>
    unfold ofDatum
    dsimp only
    have hnumber : Only isFault ((Assoc.get? "SequenceNumber" fields).getD (.int 0)).toInt ↔
        ∀ x, Assoc.get? "SequenceNumber" fields = some (.float x) →
          ¬Decimal.isInfinite x = true := by
      rw [toInt_only]
      cases Assoc.get? "SequenceNumber" fields with
      | none => exact iff_of_true nofun nofun
      | some d => simp only [Option.getD_some, Option.some.injEq]
    cases htoInt : ((Assoc.get? "SequenceNumber" fields).getD (.int 0)).toInt with
    | error f =>
      rw [htoInt, only_error] at hnumber
      refine only_error.trans (hnumber.trans
        ⟨fun h hover => ?_, fun h x hx hinf => h (.number hx hinf)⟩)
      cases hover with
      | number hx hinf => exact h _ hx hinf
      | date hn => cases htoInt.symm.trans hn
    | ok n =>
      rw [htoInt] at hnumber
      have hfinite := hnumber.mp (.ok n)
      have hdate : Only isFault (dateOf ((Assoc.get? "CreationTime" fields).getD .null)) ↔
          ¬Overflows (.object fields) := by
        rw [dateOf_only]
        refine ⟨fun h hover => ?_, fun h millis hmillis hlate => h (.date htoInt hmillis hlate)⟩
        cases hover with
        | number hx hinf => exact hfinite _ hx hinf
        | date _ hmillis hlate => exact h _ hmillis hlate
      rw [← hdate, ok_bind]
      cases dateOf ((Assoc.get? "CreationTime" fields).getD .null) with
      | error f => exact only_error.trans only_error.symm
      | ok created => exact iff_of_true (.ok _) (.ok _)
  | null | bool | int | float | text | list | bytes | tuple | registry =>
    exact iff_of_true (.error rfl) nofun

/-- What a list cannot be read out of. -/
inductive Trips (text : String) : Prop
  | longInteger {digits} (h : Json.read text = .error (.badValue (Json.tooLongText digits)))
  | noItems {d f} (h : Json.read text = .ok d) (hd : d.iterate = .error f)
  | entry {d e} (h : Json.read text = .ok d) (he : e ∈ entriesOf d) (hover : Overflows e)

theorem trips_of_read {text : String} {d : Datum} (h : Json.read text = .ok d) :
    Trips text ↔ (∃ f, d.iterate = .error f) ∨ ∃ e ∈ entriesOf d, Overflows e := by
  constructor
  · rintro (⟨hread⟩ | ⟨hread, hd⟩ | ⟨hread, he, hover⟩) <;> cases h.symm.trans hread
    · exact .inl ⟨_, hd⟩
    · exact .inr ⟨_, he, hover⟩
  · rintro (⟨f, hd⟩ | ⟨e, he, hover⟩)
    · exact .noItems h hd
    · exact .entry h he hover

theorem not_trips_empty : ¬Trips "" := by
  have hread : Json.read "" = .error (.json ⟨.value, 0, 1, 1⟩) := rfl
  rintro (⟨h⟩ | ⟨h, -⟩ | ⟨h, -, -⟩) <;> cases hread.symm.trans h

end RestorePoint

/-- The reply cannot be listed. -/
def ShellResult.Trips (reply : ShellResult) : Prop :=
  reply.success = true ∧ RestorePoint.Trips reply.output

namespace RestorePoints

variable {r : RestorePoints} {h h' : Host μ}

theorem shell_on (havailable : r.available = true) (hl : h.Legible) (text : String) :
    (r.shell text).on h = (.ok (h.reply 0),
      h.ran (["powershell.exe", "-NoProfile", "-Command", text].map .text) (.int timeout)) := by
  rw [shell, if_pos havailable]
  exact Host.command_on hl _ _

/-- **Whether there are restore points is always answered.** -/
theorem isEnabled_on (havailable : r.available = true) (hl : h.Legible) : ∃ argv timeout,
    r.isEnabled.on h = (.ok !(h.reply 0).turnsOff, h.ran argv timeout) := by
  rw [isEnabled, havailable, Bool.not_true, if_neg Bool.false_ne_true,
    Act.on_bind_of_ok (shell_on havailable hl _), ShellResult.turnsOff]
  generalize h.reply 0 = reply
  by_cases hsilent : (!reply.success || decide (reply.output = "")) = true
  · rw [if_pos hsilent]
    rcases (Bool.or_eq_true _ _).mp hsilent with hfails | hempty
    · rw [(Bool.not_eq_true' _).mp hfails]
      exact ⟨_, _, rfl⟩
    · rw [of_decide_eq_true hempty]
      cases reply.success <;> exact ⟨_, _, rfl⟩
  · rw [if_neg hsilent]
    rw [Bool.not_eq_true, Bool.or_eq_false_iff, Bool.not_eq_false'] at hsilent
    rw [hsilent.1, Bool.true_and]
    cases Decimal.readInt reply.output <;> exact ⟨_, _, rfl⟩

theorem isEnabled_off (havailable : r.available = false) (h : Host μ) :
    r.isEnabled.on h = (.ok false, h) := by
  rw [isEnabled, havailable]
  rfl

/-- Entries are read one by one, and it takes one that the platform cannot hold to end this. -/
theorem readAll_returns : ∀ (ds : List Datum) (h : Host μ),
    (readAll ds).Returns h ↔ ∀ d ∈ ds, ¬Overflows d
  | [], h => iff_of_true ⟨_, _, rfl⟩ nofun
  | d :: ds, h => by
    rw [List.forall_mem_cons, ← ofDatum_only, readAll]
    cases ofDatum d with
    | ok p =>
      have hread : ((Act.result (.ok p)).rescue isFault).on h = (.ok (.ok p), h) := rfl
      rw [Act.returns_after hread, and_iff_right (.ok p), ← readAll_returns ds h]
      exact Act.returns_before fun _ _ => ⟨_, _, rfl⟩
    | error f =>
      have hread := Act.rescue_of_error isFault
        (Act.on_result (.error f : Except Failure RestorePoint) h)
      rw [only_error]
      by_cases hf : isFault f = true
      · rw [if_pos hf] at hread
        have hsaid : (Host.say .debug speaker ("Error parsing restore point: " ++ f.message)).on h =
          (.ok (), _) := rfl
        rw [Act.returns_after hread, Act.returns_after hsaid, and_iff_right hf]
        exact readAll_returns ds _
      · rw [if_neg hf] at hread
        exact iff_of_false (Act.not_returns_of_error hread) fun h => hf h.1

theorem entries_return {d : Datum} {ds : List Datum} (hd : d.iterate = .ok ds) (h : Host μ) :
    (readAll (entriesOf d)).Returns h ↔
      ¬((∃ f, d.iterate = .error f) ∨ ∃ e ∈ entriesOf d, Overflows e) := by
  rw [readAll_returns, hd]
  constructor
  · rintro hall (⟨f, hf⟩ | ⟨e, he, hover⟩)
    · cases hf
    · exact hall e he hover
  · exact fun hnone e he hover => hnone (.inr ⟨e, he, hover⟩)

/-- The entries of a value that is no object are its items, if it has any. -/
theorem items_return {d : Datum} (hd : entriesOf d = d.iterate.toOption.getD []) (h : Host μ) :
    (Act.result d.iterate >>= readAll).Returns h ↔
      ¬((∃ f, d.iterate = .error f) ∨ ∃ e ∈ entriesOf d, Overflows e) := by
  cases hitems : d.iterate with
  | error f =>
    exact iff_of_false (Act.not_returns_of_error (Act.on_result _ _)) fun h => h (.inl ⟨f, rfl⟩)
  | ok ds =>
    have hentries : entriesOf d = ds := by rw [hd, hitems]; rfl
    rw [Act.returns_after (Act.on_result _ _), ← hitems, ← entries_return hitems h, hentries]

/-- **Restore points are listed** unless the reply of the shell cannot be. -/
theorem list_returns (hl : h.Legible) (limit : Datum) :
    (r.list limit).Returns h ↔ ¬(r.available = true ∧ (h.reply 0).Trips) := by
  unfold list
  cases havailable : r.available with
  | false => exact iff_of_true ⟨_, _, rfl⟩ fun h => Bool.false_ne_true h.1
  | true =>
    rw [Bool.not_true, if_neg Bool.false_ne_true, and_iff_right rfl]
    rw [Act.returns_after (shell_on havailable hl _), ShellResult.Trips]
    generalize h.reply 0 = reply
    by_cases hsilent : (!reply.success || decide (reply.output = "")) = true
    · rw [if_pos hsilent]
      refine iff_of_true ⟨_, _, rfl⟩ fun htrips => ?_
      rcases (Bool.or_eq_true _ _).mp hsilent with hfails | hempty
      · rw [htrips.1] at hfails
        cases hfails
      · exact not_trips_empty (of_decide_eq_true hempty ▸ htrips.2)
    · rw [if_neg hsilent]
      rw [Bool.not_eq_true, Bool.or_eq_false_iff, Bool.not_eq_false'] at hsilent
      rw [and_iff_right hsilent.1]
      cases hread : Json.read reply.output with
      | error f =>
        rcases Catalog.fault_of_read hread with ⟨fault, rfl⟩ | ⟨digits, rfl⟩
        · refine iff_of_true ⟨_, _, rfl⟩ ?_
          rintro (⟨h⟩ | ⟨h, -⟩ | ⟨h, -, -⟩) <;> cases hread.symm.trans h
        · refine iff_of_false ?_ fun h => h (.longInteger hread)
          rintro ⟨ps, h', hreturns⟩
          cases hreturns
      | ok d =>
        rw [trips_of_read hread]
        cases d with
        | object fields => exact entries_return (d := .object fields) rfl _
        | null | bool | int | float | text | list | bytes | tuple | registry =>
          exact items_return rfl _

/-- Restore points are made where there are any, except in a dry run. -/
def Makes (r : RestorePoints) : Prop := r.available = true ∧ r.dryRun = false

/-- **A restore point is made, or it is said why not,** unless the list with the new one cannot be
read. -/
theorem create_returns (hl : h.Legible) (description : String) :
    (r.create description).Returns h ↔
      ¬(r.Makes ∧ (h.reply 1).success = true ∧ (h.reply 2).Trips) := by
  unfold create Makes
  cases havailable : r.available with
  | false => exact iff_of_true ⟨_, _, rfl⟩ fun h => Bool.false_ne_true h.1.1
  | true =>
    rw [Bool.not_true, if_neg Bool.false_ne_true]
    cases r.dryRun with
    | true => exact iff_of_true ⟨_, _, rfl⟩ nofun
    | false =>
      dsimp only
      rw [if_neg Bool.false_ne_true, and_iff_right ⟨rfl, rfl⟩, Act.discard_bind,
        Act.returns_after (shell_on havailable hl _),
        Act.returns_after (shell_on havailable (hl.ran _ _) _), Host.reply_ran]
      cases hmade : (h.reply 1).success with
      | false => exact iff_of_true ⟨_, _, rfl⟩ fun h => Bool.false_ne_true h.1
      | true =>
        rw [Bool.not_true, if_neg Bool.false_ne_true, and_iff_right rfl, Act.returns_before,
          list_returns ((hl.ran _ _).ran _ _), Host.reply_ran, Host.reply_ran,
          and_iff_right havailable]
        intro ps h'
        cases ps <;> exact ⟨_, _, rfl⟩

end RestorePoints

namespace Service

open Program

variable {s : Service μ} {h : Host μ}

/-- The list with a new restore point is in the way of whatever it is made for. -/
def Blocked (s : Service μ) (h : Host μ) : Prop :=
  s.restore.Makes ∧ (h.reply 0).turnsOff = false ∧ (h.reply 2).success = true ∧ (h.reply 3).Trips

theorem makeRestorePoint_returns (hl : h.Legible) (description : String) :
    (s.makeRestorePoint description).Returns h ↔ ¬s.Blocked h := by
  unfold makeRestorePoint Blocked
  cases havailable : s.restore.available with
  | false =>
    rw [Act.returns_after (RestorePoints.isEnabled_off havailable h)]
    exact iff_of_true ⟨_, _, rfl⟩ fun hblocked =>
      Bool.false_ne_true (havailable.symm.trans hblocked.1.1)
  | true =>
    obtain ⟨argv, timeout, henabled⟩ := RestorePoints.isEnabled_on havailable hl
    rw [Act.returns_after henabled]
    cases (h.reply 0).turnsOff with
    | true => exact iff_of_true ⟨_, _, rfl⟩ nofun
    | false =>
      rw [Bool.not_false, if_pos rfl, RestorePoints.create_returns (hl.ran _ _), Host.reply_ran,
        Host.reply_ran, and_iff_right rfl]

variable {p : Program μ} {tweaks : List Tweak}

/-- A batch for which a restore point is made begins with it. -/
theorem runApply_on (hconfig : p.config.execution.createRestorePoint.truthy = true)
    (htweaks : tweaks ≠ []) (c : Control μ) (force : Bool) : ∃ description,
      (s.runApply tweaks c force).on p = (onHost (s.makeRestorePoint description) >>= fun _ =>
        runBatch (s.engineFor force) .apply tweaks c).on p := by
  cases tweaks with
  | nil => exact absurd rfl htweaks
  | cons t ts =>
    rw [runApply, List.isEmpty_cons, if_neg Bool.false_ne_true, Act.on_bind, Act.on_view]
    dsimp only
    rw [if_pos hconfig, Act.discard_bind]
    exact ⟨_, rfl⟩

/-- **A batch for which a restore point is made** goes on from there, or it ends before anything is
done. -/
theorem runApply_settles (hl : p.session.host.Legible)
    (hconfig : p.config.execution.createRestorePoint.truthy = true) (htweaks : tweaks ≠ [])
    (c : Control μ) (force : Bool) : ∃ h', h'.deeds = p.session.host.deeds ∧
      (s.Blocked p.session.host → ∃ f,
        (s.runApply tweaks c force).on p = (.error f, hostPart.set h' p)) ∧
      (¬s.Blocked p.session.host → (s.runApply tweaks c force).on p =
        (runBatch (s.engineFor force) .apply tweaks c).on (hostPart.set h' p)) := by
  obtain ⟨description, hon⟩ := runApply_on (s := s) hconfig htweaks c force
  have hreturns := makeRestorePoint_returns (s := s) hl description
  have hdeeds := Act.Keeps.makeRestorePoint s description p.session.host
  rw [hon, Act.on_bind, onHost, Part.on_lift]
  have hhost : hostPart.get p = p.session.host := rfl
  rw [hhost]
  rcases hmade : (s.makeRestorePoint description).on p.session.host with ⟨f | n, h'⟩ <;>
    rw [hmade] at hdeeds
  · have hblocked : s.Blocked p.session.host := by
      by_contra hclear
      obtain ⟨n, h'', h⟩ := hreturns.mpr hclear
      cases hmade.symm.trans h
    exact ⟨h', hdeeds, fun _ => ⟨f, rfl⟩, fun hclear => absurd hblocked hclear⟩
  · have hclear : ¬s.Blocked p.session.host := hreturns.mp ⟨n, h', hmade⟩
    exact ⟨h', hdeeds, fun hblocked => absurd hblocked hclear, fun _ => rfl⟩

/-- **What stops a call about restore points.**  Whether there are any is always answered.  Listing
and making them, and the batch for which one is made, fail exactly when the shell answers with a
list that cannot be read. -/
theorem restorePoint_settles (s : Service μ) {h : Host μ} (hl : h.Legible) :
    s.restore.isEnabled.Returns h ∧
    (∀ limit, (s.restore.list limit).Returns h ↔
      ¬(s.restore.available = true ∧ (h.reply 0).Trips)) ∧
    (∀ description, (s.restore.create description).Returns h ↔
      ¬(s.restore.Makes ∧ (h.reply 1).success = true ∧ (h.reply 2).Trips)) ∧
    (∀ description, (s.makeRestorePoint description).Returns h ↔ ¬s.Blocked h) ∧
    ∀ (p : Program μ) (tweaks : List Tweak) (c : Control μ) (force : Bool), p.session.host = h →
      p.config.execution.createRestorePoint.truthy = true → tweaks ≠ [] →
      ∃ h', h'.deeds = h.deeds ∧
        (s.Blocked h → ∃ f, (s.runApply tweaks c force).on p = (.error f, hostPart.set h' p)) ∧
        (¬s.Blocked h → (s.runApply tweaks c force).on p =
          (runBatch (s.engineFor force) .apply tweaks c).on (hostPart.set h' p)) := by
  refine ⟨?_, RestorePoints.list_returns hl, RestorePoints.create_returns hl,
    makeRestorePoint_returns hl, ?_⟩
  · cases havailable : s.restore.available with
    | false => exact ⟨_, _, RestorePoints.isEnabled_off havailable h⟩
    | true =>
      obtain ⟨argv, timeout, henabled⟩ := RestorePoints.isEnabled_on havailable hl
      exact ⟨_, _, henabled⟩
  · rintro p tweaks c force rfl hconfig htweaks
    exact runApply_settles hl hconfig htweaks c force

end Service

/-! ## A number for a list -/

/-- A host on which commands answer nothing until the list of restore points is asked for. -/
def listingHost (output : String) : Host Machine :=
  { machine := {}
    answers := [.quiet, .quiet, .quiet, .ended 0 (some output) (some "")] }

/-- A program that makes a restore point before it applies tweaks. -/
def restoringProgram (output : String) : Program Machine :=
  { sampleProgram with
    config := { Config.default "/" with execution := { createRestorePoint := .bool true } }
    session := { host := listingHost output } }

def restoringService : Service Machine := { sampleService with restore := ⟨true, false⟩ }

theorem listingHost_legible (output : String) : (listingHost output).Legible := by
  simp [listingHost, Host.Legible, Answer.Legible, Answer.quiet]

/-- The list holds one entry, which says nothing, and the batch goes on. -/
theorem sample_point_made : ∃ h',
    (restoringService.runApply [sampleSetting "a"] {} true).on (restoringProgram "\x7b\x7d") =
      (Service.runBatch (restoringService.engineFor true) .apply [sampleSetting "a"] {}).on
        (Program.hostPart.set h' (restoringProgram "\x7b\x7d")) := by
  have hread : Json.read "\x7b\x7d" = .ok (.object []) := rfl
  have hclear : ¬restoringService.Blocked (listingHost "\x7b\x7d") := by
    rintro ⟨-, -, -, -, htrips⟩
    have houtput : ((listingHost "\x7b\x7d").reply 3).output = "\x7b\x7d" := by decide +kernel
    rw [houtput, RestorePoint.trips_of_read hread] at htrips
    obtain ⟨f, hitems⟩ | ⟨e, he, hover⟩ := htrips
    · cases hitems
    · obtain rfl : e = .object [] := List.mem_singleton.mp he
      cases hover with
      | number hnumber => cases hnumber
      | date _ hdate => cases hdate
  obtain ⟨-, -, -, -, hbatch⟩ :=
    restoringService.restorePoint_settles (listingHost_legible "\x7b\x7d")
  obtain ⟨h', -, -, hgoes⟩ := hbatch (restoringProgram "\x7b\x7d") [sampleSetting "a"] {} true rfl
    rfl nofun
  exact ⟨h', hgoes hclear⟩

/-- The shell answers with a number where the restore points are to be listed.  None are listed, and
no tweak of the batch is applied. -/
theorem sample_no_batch :
    (∃ f h', (RestorePoints.list ⟨true, false⟩ (.int 20)).on
      { machine := ({} : Machine), answers := [.ended 0 (some "5") (some "")] } = (.error f, h')) ∧
    ∃ f p', (restoringService.runApply [sampleSetting "a"] {} true).on (restoringProgram "5") =
      (.error f, p') ∧ p'.session.host.writes.length = 0 := by
  constructor
  · have hfails : (RestorePoints.list ⟨true, false⟩ (.int 20)).fails
        { machine := ({} : Machine), answers := [.ended 0 (some "5") (some "")] }
        (fun _ _ => true) = true := by
      decide +kernel
    obtain ⟨f, h', h, -⟩ := Act.of_fails hfails
    exact ⟨f, h', h⟩
  · have hfails : (restoringService.runApply [sampleSetting "a"] {} true).fails
        (restoringProgram "5") (fun _ p' => p'.session.host.writes.length == 0) = true := by
      decide +kernel
    obtain ⟨f, p', h, hwrites⟩ := Act.of_fails hfails
    exact ⟨f, p', h, beq_iff_eq.mp hwrites⟩

end TweakEngine
