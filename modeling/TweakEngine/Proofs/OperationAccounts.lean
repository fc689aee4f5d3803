/-
# Every operation is accounted for

A malformed operation costs only itself when its failure is one that is recorded.  All
conversions of a catalog value fail in this way but two: an infinite number among the bytes of a
binary value is an overflow (`RegistryOperation.Overflows`), and a script that is no text can be
neither described nor trimmed (`ScriptOperation.Trimmable`).  `Tweak.settled_iff` says that these
two are all: a tweak without them is accounted for in full by every engine whose mutator answers or
fails in a way that is recorded, and a tweak with one of them is not, even if everything is
answered.
-/

import TweakEngine.Proofs.DamagedSnapshots
import TweakEngine.Proofs.JointNotes
import TweakEngine.Proofs.WovenActions

namespace TweakEngine

open Session

/-! ## Failures that are recorded -/

theorem Failure.isOperational_of_reading {f : Failure} (h : f.isReadingFault = true) :
    f.isOperational = true := by
  unfold isReadingFault at h
  unfold isOperational
  revert h
  cases f.isDeclared <;> cases f.isSystem <;> cases f.isValue <;> simp

theorem goesOn_iff {α : Type} {r : Except Failure α} :
    goesOn r = true ↔ Failure.Only Failure.isOperational r := by
  cases r with
  | ok x => exact iff_of_true rfl (.ok x)
  | error f => exact ⟨fun h => .error h, fun h => h f rfl⟩

namespace Act

variable {σ α β : Type}

/-- Whatever goes wrong is recorded, and what comes after it still runs. -/
def GoesOn (a : Act σ α) : Prop := ∀ s, goesOn (a.on s).1 = true

namespace GoesOn

theorem pure (x : α) : GoesOn (Pure.pure x : Act σ α) := fun _ => rfl

theorem throw {f : Failure} (h : f.isOperational = true) :
    GoesOn (MonadExcept.throw f : Act σ α) := fun _ => h

theorem throw_bind {f : Failure} (h : f.isOperational = true) (k : α → Act σ β) :
    GoesOn ((MonadExcept.throw f : Act σ α) >>= k) := fun _ => h

theorem result {r : Except Failure α} (h : goesOn r = true) : GoesOn (Act.result r : Act σ α) :=
  fun _ => h

theorem bind {a : Act σ α} {k : α → Act σ β} (ha : GoesOn a)
    (hk : ∀ x s t, a.on s = (.ok x, t) → GoesOn (k x)) : GoesOn (a >>= k) := by
  intro s
  have h := ha s
  rw [on_bind]
  rcases hs : a.on s with ⟨f | x, t⟩
  · rw [hs] at h
    exact h
  · exact hk x s t hs t

/-- A sequence of actions that go on whatever is given to them. -/
theorem andThen {a : Act σ α} {k : α → Act σ β} (ha : GoesOn a) (hk : ∀ x, GoesOn (k x)) :
    GoesOn (a >>= k) := ha.bind fun x _ _ _ => hk x

theorem discard {a : Act σ α} (h : GoesOn a) : GoesOn (discard a) := by
  intro s
  rw [on_discard]
  have h := h s
  revert h
  rcases a.on s with ⟨f | x, t⟩ <;> exact id

theorem onHost {μ : Type} {a : Call μ α} (h : GoesOn a) : GoesOn (Session.onHost a) :=
  fun s => h s.host

theorem capture {μ : Type} (part : Part (Session μ) (Captures α)) (slot : Slot) (c : α) :
    GoesOn (Session.capture part slot c) := fun _ => rfl

theorem say {μ : Type} (level : Level) (speaker text : String) :
    GoesOn (Session.say level speaker text : Work μ Unit) := fun _ => rfl

end GoesOn
end Act

/-! ## Payloads -/

theorem mapM_eq_error {α β : Type} {f : α → Except Failure β} {e : Failure} :
    ∀ {xs : List α}, xs.mapM f = .error e ↔ ∃ before x after, xs = before ++ x :: after ∧
      (∀ y ∈ before, ∃ b, f y = .ok b) ∧ f x = .error e
  | [] => by
    refine iff_of_false nofun ?_
    rintro ⟨before, x, after, h, -⟩
    cases before <;> cases h
  | x :: xs => by
    rw [List.mapM_cons]
    cases hx : f x with
    | error e' =>
      constructor
      · intro h
        cases h
        exact ⟨[], x, xs, rfl, nofun, hx⟩
      · rintro ⟨before, y, after, h, hbefore, hy⟩
        cases before with
        | nil =>
          cases h
          exact congrArg _ (Except.error.inj (hx.symm.trans hy))
        | cons z before =>
          cases h
          obtain ⟨b, hb⟩ := hbefore _ List.mem_cons_self
          cases hx.symm.trans hb
    | ok b =>
      have hrest : (Except.ok b >>= fun b => xs.mapM f >>= fun bs => pure (b :: bs)) =
          .error e ↔ xs.mapM f = .error e := by
        rw [ok_bind]
        cases xs.mapM f with
        | error e' => exact ⟨fun h => congrArg _ (Except.error.inj h), fun h => by cases h; rfl⟩
        | ok bs => exact iff_of_false nofun nofun
      rw [hrest, mapM_eq_error]
      constructor
      · rintro ⟨before, y, after, rfl, hbefore, hy⟩
        exact ⟨x :: before, y, after, rfl, List.forall_mem_cons.mpr ⟨⟨b, hx⟩, hbefore⟩, hy⟩
      · rintro ⟨before, y, after, h, hbefore, hy⟩
        cases before with
        | nil =>
          cases h
          cases hx.symm.trans hy
        | cons z before =>
          cases h
          exact ⟨before, y, after, rfl, fun y hy => hbefore y (List.mem_cons_of_mem _ hy), hy⟩

/-- A number is too large. -/
def Failure.isOverflow : Failure → Bool
  | .overflow _ => true
  | _ => false

namespace RegistryValue

/-- Of the items of a byte list only an infinite number overflows. -/
theorem byteOf_overflow {d : Datum} {text : String} (h : byteOf d = .error (.overflow text)) :
    ∃ x, d = .float x ∧ Decimal.isInfinite x = true := by
  by_contra hfinite
  push Not at hfinite
  have honly : Failure.Only (fun f => !f.isOverflow) (byteOf d) := by
    refine (Datum.toInt_only fun x hx => Bool.eq_false_iff.mpr (hfinite x hx)).bind fun n => ?_
    split
    · exact .ok _
    · exact .error rfl
  cases honly _ h

theorem byteOf_infinite {x : Float} (h : Decimal.isInfinite x = true) :
    byteOf (.float x) = .error (.overflow "cannot convert float infinity to integer") := by
  have hnone : Decimal.truncate? x = none := by
    unfold Decimal.isInfinite at h
    unfold Decimal.truncate?
    revert h
    cases Decimal.Parts.ofFloat x <;> simp
  rw [byteOf, Datum.toInt, hnone]
  dsimp only
  rw [h, if_pos rfl]
  rfl

/-- A list whose first item that is no byte is an infinite number. -/
def Unbounded (items : List Datum) : Prop := ∃ before x after,
  items = before ++ .float x :: after ∧ (∀ d ∈ before, ∃ b, byteOf d = .ok b) ∧
    Decimal.isInfinite x = true

theorem bytesOf_goesOn {items : List Datum} : goesOn (bytesOf items) = false ↔ Unbounded items := by
  have hoverflow : (∃ text, items.mapM byteOf = .error (.overflow text)) ↔ Unbounded items := by
    constructor
    · rintro ⟨text, h⟩
      obtain ⟨before, d, after, hitems, hbefore, hd⟩ := mapM_eq_error.mp h
      obtain ⟨x, rfl, hx⟩ := byteOf_overflow hd
      exact ⟨before, x, after, hitems, hbefore, hx⟩
    · rintro ⟨before, x, after, hitems, hbefore, hx⟩
      exact ⟨_, mapM_eq_error.mpr ⟨before, _, after, hitems, hbefore, byteOf_infinite hx⟩⟩
  rw [← hoverflow]
  unfold bytesOf
  split
  · next h => simp [h, goesOn]
  · next h => simp [h, goesOn, Failure.isOperational, Failure.isDeclared, Failure.isSystem,
      Failure.isValue]
  · next f hf h =>
    refine iff_of_false (by simp [goesOn, Failure.isOperational, Failure.isDeclared]) ?_
    rintro ⟨text, htext⟩
    cases htext.symm.trans h
    exact hf text rfl

/-- A byte list in a binary value. -/
theorem coerce_bytes_goesOn {raw : Datum} {items : List Datum}
    (h : raw = .list items ∨ raw = .tuple items) :
    goesOn (coerce raw .binary) = goesOn (bytesOf items) := by
  have hcoerce : coerce raw .binary = some <$> (do return binary (← bytesOf items)) := by
    rcases h with rfl | rfl <;> rfl
  rw [hcoerce]
  cases bytesOf items <;> rfl

/-- The only payload whose conversion ends a run. -/
theorem coerce_goesOn {raw : Datum} {kind : ValueKind} : goesOn (coerce raw kind) = false ↔
    kind = .binary ∧ ∃ items, (raw = .list items ∨ raw = .tuple items) ∧ Unbounded items := by
  constructor
  · intro h
    have hbounded : ¬raw.Bounded := fun hbounded => by
      have hon := goesOn_iff.mpr fun f hf =>
        Failure.isOperational_of_reading (coerce_only hbounded kind f hf)
      cases hon.symm.trans h
    have hitems : ∃ items, raw = .list items ∨ raw = .tuple items := by
      cases raw with
      | list items => exact ⟨items, .inl rfl⟩
      | tuple items => exact ⟨items, .inr rfl⟩
      | _ => exact absurd trivial hbounded
    obtain ⟨items, hraw⟩ := hitems
    cases kind with
    | binary => exact ⟨rfl, items, hraw, bytesOf_goesOn.mp (coerce_bytes_goesOn hraw ▸ h)⟩
    | _ => rcases hraw with rfl | rfl <;> cases h
  · rintro ⟨rfl, items, hraw, hitems⟩
    exact (coerce_bytes_goesOn hraw).trans (bytesOf_goesOn.mpr hitems)

end RegistryValue

/-! ## Sound operations -/

/-- The payload is a byte list for a binary value whose first item that is no byte is an infinite
number. -/
def RegistryOperation.Overflows (op : RegistryOperation) : Prop :=
  op.action = .setValue ∧ op.kind = .binary ∧
    ∃ items, (op.value = .list items ∨ op.value = .tuple items) ∧ RegistryValue.Unbounded items

theorem RegistryOperation.stops_iff {op : RegistryOperation} : op.stops = true ↔ op.Overflows := by
  rw [stops_eq_true, Overflows, resolveValue, RegistryValue.coerce_goesOn]

/-- The script is a text, or it is described by words of its own and counts as empty. -/
def ScriptOperation.Trimmable (op : ScriptOperation) : Prop :=
  op.script.IsText ∨ op.description.truthy = true ∧ op.script.truthy = false

/-- No payload overflows, and every script can be described and trimmed. -/
structure OperationSet.Sound (ops : OperationSet) : Prop where
  payloads : ∀ op ∈ ops.registry, ¬op.Overflows
  scripts : ∀ op ∈ ops.scripts, op.Trimmable

namespace ScriptOperation

variable {op : ScriptOperation}

theorem Trimmable.describe (h : op.Trimmable) : ∃ d, op.describe = .ok d := by
  unfold ScriptOperation.describe
  split
  · exact ⟨_, rfl⟩
  · next hdescription =>
    obtain ⟨s, hs⟩ | ⟨h, -⟩ := h
    · rw [hs]
      exact ⟨_, rfl⟩
    · exact absurd h hdescription

theorem Trimmable.trimmed (h : op.Trimmable) : ∃ s, Detection.trimmed op.script = .ok s := by
  unfold Detection.trimmed
  obtain ⟨s, hs⟩ | ⟨-, h⟩ := h
  · rw [hs]
    cases (Datum.text s).truthy <;> exact ⟨_, rfl⟩
  · rw [h]
    exact ⟨_, rfl⟩

/-- A script that can be described and trimmed is one of these. -/
theorem trimmable_of {d : Datum} (hd : op.describe = .ok d)
    (hs : goesOn (Detection.trimmed op.script) = true) : op.Trimmable := by
  cases hscript : op.script with
  | text s => exact .inl ⟨s, hscript⟩
  | _ =>
    refine .inr ⟨?_, ?_⟩
    · by_contra hdescription
      rw [ScriptOperation.describe, if_neg hdescription, hscript] at hd
      cases hd
    · by_contra htruthy
      rw [Bool.not_eq_false] at htruthy
      rw [hscript] at htruthy hs
      unfold Detection.trimmed at hs
      rw [htruthy] at hs
      cases hs

end ScriptOperation

/-! ## Running one operation -/

/-- The calls of a mutator answer, or fail in a way that is recorded, and what a script answers
are texts. -/
structure Mutator.Answers {μ : Type} (m : Mutator μ) : Prop where
  readValue : ∀ hive path name, (m.readValue hive path name).GoesOn
  keyExists : ∀ hive path, (m.keyExists hive path).GoesOn
  queryService : ∀ service, (m.queryService service).GoesOn
  pathExists : ∀ path, (m.pathExists path).GoesOn
  readText : ∀ path, (m.readText path).GoesOn
  write : ∀ w, (m.write w).GoesOn
  texts : ∀ script timeout elevated h outcome h',
    (m.write (.runScript script timeout elevated)).on h = (.ok outcome, h') →
      outcome.stdout ≠ none ∧ outcome.stderr ≠ none

namespace Engine

variable {μ : Type} {e : Engine μ} {slot : Slot}

open Act (GoesOn)

/-- What the host answers in a session. -/
theorem on_of_onHost {α : Type} {a : Call μ α} {x : α} {s t : Session μ}
    (h : (onHost a).on s = (.ok x, t)) : a.on s.host = (.ok x, t.host) := by
  obtain ⟨hx, rfl⟩ := Prod.mk.inj h
  exact Prod.ext hx rfl

theorem goesOn_resolve (he : e.mutator.Answers) (hive : Hive) (path : Datum) :
    (e.resolve hive path).GoesOn := by
  unfold resolve
  split
  · exact .pure _
  · refine (he.keyExists _ _).andThen fun there => ?_
    cases there with
    | false => exact .throw rfl
    | true => exact .pure _

theorem goesOn_runKey (he : e.mutator.Answers) (hive : Hive) (path : Datum) (create : Bool) :
    (e.runKey slot hive path create).GoesOn := by
  unfold runKey
  refine (he.keyExists _ _).onHost.andThen fun existed => (GoesOn.capture _ _ _).discard.andThen
    fun _ => ?_
  split
  · exact (he.write _).onHost.discard.andThen fun _ => .pure _
  · refine (he.write _).onHost.andThen fun removed => ?_
    split <;> exact .pure _

theorem goesOn_captureValue (he : e.mutator.Answers) (hive : Hive) (path name : Datum) :
    (e.captureValue slot hive path name).GoesOn :=
  (he.readValue _ _ _).onHost.andThen fun _ => (GoesOn.capture _ _ _).discard

theorem goesOn_runRegistry (he : e.mutator.Answers) {op : RegistryOperation} (hop : ¬op.Overflows) :
    (e.runRegistry slot op).GoesOn := by
  unfold runRegistry
  refine (goesOn_resolve he _ _).onHost.andThen fun place => ?_
  obtain ⟨hive, path⟩ := place
  cases hact : op.action with
  | createKey | deleteKey => exact goesOn_runKey he _ _ _
  | setValue =>
    have hpayload := RegistryOperation.stops_eq_false.mp
      (Bool.eq_false_iff.mpr (RegistryOperation.stops_iff.not.mpr hop)) hact
    refine (goesOn_captureValue he _ _ _).andThen fun _ => (GoesOn.result hpayload).andThen
      fun value? => ?_
    cases value? with
    | none => exact .throw rfl
    | some value => exact (he.write _).onHost.andThen fun _ => .pure _
  | deleteValue =>
    refine (goesOn_captureValue he _ _ _).andThen fun _ => (he.write _).onHost.andThen
      fun removed => ?_
    cases removed <;> exact .pure _

theorem goesOn_runService (he : e.mutator.Answers) (op : ServiceOperation) :
    (e.runService slot op).GoesOn := by
  have hwrite : goesOn (serviceWrite op) = true := by
    unfold serviceWrite
    split
    all_goals first | rfl | split <;> rfl
  unfold runService
  refine (he.queryService _).onHost.andThen fun snapshot => ?_
  dsimp only
  split
  · exact .throw_bind rfl _
  · exact (GoesOn.capture _ _ _).discard.andThen fun _ => (GoesOn.result hwrite).andThen fun w =>
      (he.write w).onHost.discard.andThen fun _ => .pure _

theorem goesOn_runScript (he : e.mutator.Answers) {op : ScriptOperation} (hop : op.Trimmable) :
    (e.runScript op).GoesOn := by
  have houtput : ∀ output, output ≠ none → goesOn (runText.trimmedOutput output) = true := by
    intro output h
    cases output with
    | none => exact absurd rfl h
    | some s => rfl
  obtain ⟨text, htext⟩ := hop.trimmed
  unfold runScript runText
  rw [htext]
  refine (GoesOn.result rfl).andThen fun trimmed => ?_
  dsimp only
  split
  · exact .throw_bind rfl _
  split
  -- an elevated script is announced first
  on_goal 1 => refine (GoesOn.say _ _ _).andThen fun _ => ?_
  all_goals
    refine (he.write _).onHost.bind fun outcome s t h => ?_
    obtain ⟨hstdout, hstderr⟩ := he.texts _ _ _ s.host outcome t.host (on_of_onHost h)
    split
    · exact .throw_bind rfl _
    split
    · refine (GoesOn.result (houtput _ hstderr)).andThen fun stderr => ?_
      split
      · exact (GoesOn.pure _).andThen fun _ => .throw_bind rfl _
      · exact (GoesOn.result (houtput _ hstdout)).andThen fun _ => .throw_bind rfl _
    · exact .pure _

theorem goesOn_captureFile (he : e.mutator.Answers) (op : FileOperation) :
    (e.captureFile slot op).GoesOn := by
  unfold captureFile
  refine (he.pathExists _).onHost.andThen fun there => ?_
  dsimp only
  split
  · exact (he.readText _).onHost.andThen fun content => (GoesOn.capture _ _ _).andThen fun _ =>
      .pure _
  · exact (GoesOn.pure _).andThen fun content => (GoesOn.capture _ _ _).andThen fun _ => .pure _

theorem goesOn_runTransfer (he : e.mutator.Answers) (op : FileOperation) (w : Write) :
    (e.runTransfer slot op w).GoesOn := by
  unfold runTransfer
  dsimp only
  split
  · exact .throw_bind rfl _
  · exact (he.pathExists _).onHost.andThen fun _ => (GoesOn.capture _ _ _).discard.andThen fun _ =>
      (he.write w).onHost.discard.andThen fun _ => .pure _

theorem goesOn_runFile (he : e.mutator.Answers) (op : FileOperation) :
    (e.runFile slot op).GoesOn := by
  unfold runFile
  cases op.action with
  | setAttributes | takeOwnership => exact .throw rfl
  | rename | copy => exact goesOn_runTransfer he op _
  | createFile | createDirectory =>
    exact (goesOn_captureFile he op).discard.andThen fun _ => (he.write _).onHost.andThen fun _ =>
      .pure _
  | delete =>
    refine (goesOn_captureFile he op).andThen fun captured => ?_
    dsimp only
    split
    · exact .pure _
    split
    · exact (he.write _).onHost.andThen fun _ => (he.write _).onHost.andThen fun _ => .pure _
    · exact (he.write _).onHost.andThen fun _ => .pure _

/-- Every step of a sound set of operations goes on. -/
theorem goesOn_steps (he : e.mutator.Answers) {tweakId : String} {side : Side} {ops : OperationSet}
    (hops : ops.Sound) {steps : List (Step μ)} (h : e.runSteps tweakId side ops = .ok steps) :
    ∀ st ∈ steps, st.run.GoesOn :=
  forall_runSteps h (fun _ op hop => goesOn_runRegistry he (hops.payloads op hop))
    (fun _ op _ => goesOn_runService he op) (fun op hop => goesOn_runScript he (hops.scripts op hop))
    fun _ op _ => goesOn_runFile he op

end Engine

/-! ## Accounts -/

/-- What has become of an operation. -/
inductive Account
  | applied
  | noted (note : String)
  | failed (f : Failure)

namespace Account

/-- The account of an outcome; there is none of a failure that is not recorded. -/
def of? : Except Failure (Option String) → Option Account
  | .ok none => some .applied
  | .ok (some note) => some (.noted note)
  | .error f => if f.isOperational then some (.failed f) else none

/-- The entry of an operation that was applied. -/
def applied? (label : Datum) : Account → Option Datum
  | applied => some label
  | _ => none

/-- The entry of an operation with a note. -/
def noted? (label : Datum) : Account → Option Datum
  | noted note => some (.text (label.display ++ ": " ++ note))
  | _ => none

/-- The entry of an operation that failed. -/
def failed? (label : Datum) : Account → Option Datum
  | failed f => some (.text (label.display ++ ": " ++ f.message))
  | _ => none

end Account

/-- A result in which more operations are accounted for, each under its label. -/
def Result.enter (r : Result) (xs : List (Datum × Account)) : Result :=
  { r with
    applied := r.applied ++ xs.filterMap fun x => x.2.applied? x.1
    messages := r.messages ++ xs.filterMap fun x => x.2.noted? x.1
    failed := r.failed ++ xs.filterMap fun x => x.2.failed? x.1 }

theorem Result.enter_enter (r : Result) (xs ys : List (Datum × Account)) :
    (r.enter xs).enter ys = r.enter (xs ++ ys) := by
  simp [enter, List.append_assoc]

theorem Result.enter_nil (r : Result) : r.enter [] = r := by simp [enter]

theorem Result.enter_applied (r : Result) (label : Datum) :
    r.enter [(label, .applied)] = { r with applied := r.applied ++ [label] } := by
  simp [enter, Account.applied?, Account.noted?, Account.failed?]

theorem Result.enter_noted (r : Result) (label : Datum) (note : String) :
    r.enter [(label, .noted note)] =
      { r with messages := r.messages ++ [.text (label.display ++ ": " ++ note)] } := by
  simp [enter, Account.applied?, Account.noted?, Account.failed?]

theorem Result.enter_failed (r : Result) (label : Datum) (f : Failure) :
    r.enter [(label, .failed f)] =
      { r with failed := r.failed ++ [.text (label.display ++ ": " ++ f.message)] } := by
  simp [enter, Account.applied?, Account.noted?, Account.failed?]

/-- Every account has one entry. -/
theorem Result.enter_count (r : Result) (xs : List (Datum × Account)) :
    (r.enter xs).applied.length + (r.enter xs).messages.length + (r.enter xs).failed.length =
      r.applied.length + r.messages.length + r.failed.length + xs.length := by
  induction xs using List.reverseRecOn with
  | nil => simp [enter]
  | append_singleton xs x ih =>
    rw [← enter_enter, List.length_append, List.length_singleton, ← Nat.add_assoc, ← ih]
    obtain ⟨label, a⟩ := x
    cases a <;> simp [enter, Account.applied?, Account.noted?, Account.failed?] <;> omega

namespace Engine

variable {μ : Type} {e : Engine μ} {t : Tweak}

/-- All steps run one after the other, with nothing but messages between them, and each has an
account of its outcome. -/
inductive RunsAll : List (Step μ) → Session μ → List Account → Session μ → Prop
  | nil (s : Session μ) : RunsAll [] s [] s
  | cons {st : Step μ} {steps : List (Step μ)} {s s₁ s₂ : Session μ} {a : Account}
      {accounts : List Account} (account : Account.of? (st.run.on s).1 = some a)
      (between : s₁.core = (st.run.on s).2.core) (rest : RunsAll steps s₁ accounts s₂) :
      RunsAll (st :: steps) s (a :: accounts) s₂

/-- Every step has one account. -/
theorem RunsAll.length {steps : List (Step μ)} {s s' : Session μ} {accounts : List Account}
    (h : RunsAll steps s accounts s') : accounts.length = steps.length := by
  induction h with
  | nil => rfl
  | cons _ _ _ ih => exact congrArg (· + 1) ih

/-- Every step has gone on. -/
theorem RunsAll.goesOn {steps : List (Step μ)} {s s' : Session μ} {accounts : List Account}
    (h : RunsAll steps s accounts s') : ∀ st ∈ steps, ∃ s, goesOn (st.run.on s).1 = true := by
  induction h with
  | nil => exact List.forall_mem_nil _
  | @cons st _ s _ _ _ _ account _ _ ih =>
    refine List.forall_mem_cons.mpr ⟨⟨s, ?_⟩, ih⟩
    revert account
    rcases st.run.on s with ⟨f | note?, s₁⟩ <;> intro account
    · by_contra hf
      cases (if_neg hf).symm.trans account
    · rfl

/-- A step that goes on is entered with its account. -/
theorem runStep_enters {st : Step μ} {s : Session μ} (h : goesOn (st.run.on s).1 = true)
    (r : Result) : ∃ a s', Account.of? (st.run.on s).1 = some a ∧ s'.core = (st.run.on s).2.core ∧
      (runStep st r).on s = (.ok (r.enter [(st.label, a)], none), s') := by
  unfold runStep
  rw [Act.on_bind, Act.on_attempt]
  revert h
  rcases st.run.on s with ⟨f | note?, s₁⟩ <;> intro h
  · have hf : f.isOperational = true := h
    obtain ⟨s₂, hsay, hcore⟩ := say_on (μ := μ) .warning speaker
      ("Operation failed: " ++ st.label.display ++ ": " ++ f.message) s₁
    refine ⟨.failed f, s₂, by rw [Account.of?, if_pos hf], hcore, ?_⟩
    dsimp only
    rw [if_pos hf, Act.on_bind_of_ok hsay, Result.enter_failed]
    rfl
  · cases note? with
    | none =>
      obtain ⟨s₂, hsay, hcore⟩ :=
        say_on (μ := μ) .debug speaker ("Completed: " ++ st.label.display) s₁
      refine ⟨.applied, s₂, rfl, hcore, ?_⟩
      dsimp only
      rw [Act.on_bind_of_ok hsay, Result.enter_applied]
      rfl
    | some note => exact ⟨.noted note, s₁, rfl, rfl, by rw [Result.enter_noted]; rfl⟩

/-- Steps that go on all run, and each is entered. -/
theorem execute_enters {steps : List (Step μ)} (h : ∀ st ∈ steps, st.run.GoesOn) (r : Result)
    (s : Session μ) : ∃ accounts s', RunsAll steps s accounts s' ∧
      (execute (fun _ => false) steps r).on s =
        (.ok (r.enter ((steps.map Step.label).zip accounts)), s') := by
  induction steps generalizing r s with
  | nil => exact ⟨[], s, .nil s, by rw [List.map_nil, List.zip_nil_left, Result.enter_nil]; rfl⟩
  | cons st steps ih =>
    obtain ⟨a, s₁, ha, hcore, hstep⟩ := runStep_enters (h st List.mem_cons_self s) r
    obtain ⟨accounts, s', hall, hrest⟩ :=
      ih (fun st hst => h st (List.mem_cons_of_mem _ hst)) (r.enter [(st.label, a)]) s₁
    refine ⟨a :: accounts, s', .cons ha hcore hall, ?_⟩
    rw [execute_of_step rfl hstep]
    dsimp only
    rw [hrest, Result.enter_enter]
    rfl

/-- The labels of the steps are the descriptions of the operations. -/
theorem runSteps_labels {tweakId : String} {side : Side} {ops : OperationSet}
    {steps : List (Step μ)} (h : e.runSteps tweakId side ops = .ok steps) :
    ops.describe = .ok (steps.map Step.label) := by
  have hfor : ∀ {ω : Type} (os : List ω) (step : Slot → ω → Step μ) (label : ω → Datum),
      (∀ slot o, (step slot o).label = label o) →
        (stepsFor tweakId side os step).map Step.label = os.map label := by
    intro ω os step label hlabel
    rw [stepsFor, List.map_map]
    have hfst : os.map label = (os.zipIdx.map Prod.fst).map label := by rw [List.zipIdx_map_fst]
    rw [hfst, List.map_map]
    exact List.map_congr_left fun x _ => hlabel _ _
  have hscripts : ∀ (os : List ScriptOperation) (steps : List (Step μ)),
      (os.mapM fun op => do return (⟨← op.describe, e.runScript op⟩ : Step μ)) = .ok steps →
        os.mapM ScriptOperation.describe = .ok (steps.map Step.label) := by
    intro os
    induction os with
    | nil => intro steps h; cases h; rfl
    | cons op os ih =>
      intro steps h
      rw [List.mapM_cons] at h ⊢
      obtain ⟨st, hst, h⟩ := ok_of_bind h
      obtain ⟨rest, hrest, h⟩ := ok_of_bind h
      obtain ⟨label, hlabel, hst⟩ := ok_of_bind hst
      cases hst
      cases h
      rw [hlabel, ih rest hrest]
      rfl
  obtain ⟨scripts, hmap, h⟩ := ok_of_bind h
  cases h
  rw [OperationSet.describe, hscripts _ _ hmap, ok_bind]
  simp only [List.map_append]
  rw [hfor _ _ RegistryOperation.describe fun _ _ => rfl, hfor _ _ ServiceOperation.describe
    fun _ _ => rfl, hfor _ _ FileOperation.describe fun _ _ => rfl]
  rfl

/-! ## Calls -/

/-- Applying the tweak gives a successful result that was not cut short, in which every
operation is accounted for by what running it has come to. -/
def AccountsFor (e : Engine μ) (t : Tweak) (s : Session μ) : Prop :=
  ∃ steps labels accounts s₁ s₂ millis s', e.runSteps t.id .apply t.operations = .ok steps ∧
    t.operations.describe = .ok labels ∧ s₁.core = s.core ∧ RunsAll steps s₁ accounts s₂ ∧
    s'.core = s₂.core ∧ (e.apply (fun _ => false) t).on s =
      (.ok { ({ success := true, tweakId := t.id } : Result).enter (labels.zip accounts) with
        requiresRestart := t.requiresRestart, millis := millis }, s')

/-- Applying the tweak only answers that it takes rights the engine does not have. -/
def Declines (e : Engine μ) (t : Tweak) (s : Session μ) : Prop :=
  ∃ millis s', s'.core = s.core ∧ (e.apply (fun _ => false) t).on s =
    (.ok { Result.refused t.id .notElevated with millis := millis }, s')

/-- A tweak the engine may not run is declined; any other is accounted for. -/
def Settles (e : Engine μ) (t : Tweak) (s : Session μ) : Prop :=
  if e.mayRun t.operations then e.AccountsFor t s else e.Declines t s

variable {s s' : Session μ}

/-- Without a detector an apply begins with the clock, and then goes by the rights. -/
theorem apply_begins (cancelled : Session μ → Bool) (hdetector : e.detector = none) :
    (e.apply cancelled t).on s = (if !e.mayRun t.operations then
        refuse "APPLY" t s.host.clock .notElevated
      else do
        say .info speaker
          ("Applying tweak " ++ t.id ++ " (" ++ toString t.operations.count ++ " operations)")
        loadSnapshot t
        let steps ← Act.result (e.runSteps t.id .apply t.operations)
        let r ← execute cancelled steps { success := true, tweakId := t.id }
        saveSnapshot t
        let r := { r with requiresRestart := r.success && t.requiresRestart }
        finish "APPLY" t s.host.clock r.summary r).on s := by
  have hnow : (onHost Host.now : Work μ Moment).on s = (.ok s.host.clock, s) := rfl
  have hlook : (onHost (e.alreadyApplied t)).on s = (.ok false, s) := by
    rw [alreadyApplied_off (.inr hdetector)]
    rfl
  unfold apply
  rw [Act.on_bind_of_ok hnow, Act.on_bind_of_ok hlook, if_neg Bool.false_ne_true]

theorem finish_on (action : String) (start : Moment) (details : String) (r : Result) :
    ∃ millis s', (finish action t start details r : Work μ Result).on s =
      (.ok { r with millis := millis }, s') ∧ s'.core = s.core := ⟨_, _, rfl, rfl⟩

/-- Operations do not open or close a store. -/
theorem Operates.keeps_store {α : Type} {a : Work μ α} (h : e.Operates a) :
    a.Keeps Session.store := by
  refine Act.Woven.along (Q := fun s s' => s'.store = s.store) (fun _ => rfl)
    (fun {s t u} (h : t.store = s.store) (h' : u.store = t.store) => h'.trans h) (fun h => ?_) h
  cases h <;> exact fun _ => rfl

theorem RunsAll.store {steps : List (Step μ)} {accounts : List Account}
    (hsteps : ∀ st ∈ steps, e.Operates st.run) (h : RunsAll steps s accounts s') :
    s'.store = s.store := by
  induction h with
  | nil => rfl
  | @cons st _ s _ _ _ _ _ hcore _ ih =>
    rw [ih fun st hst => hsteps st (List.mem_cons_of_mem _ hst)]
    exact (congrArg Core.store hcore).trans ((hsteps st List.mem_cons_self).keeps_store s)

/-- Every operation of a sound tweak is accounted for. -/
theorem accountsFor_of_sound (he : e.mutator.Answers) (ht : t.operations.Sound)
    (hdetector : e.detector = none) (hmay : e.mayRun t.operations = true)
    (hstore : s.store = none) : e.AccountsFor t s := by
  obtain ⟨steps, hsteps⟩ := runSteps_ok e t.id .apply fun op hop => (ht.scripts op hop).describe
  obtain ⟨s₁, hsay, hcore⟩ := say_on (μ := μ) .info speaker
    ("Applying tweak " ++ t.id ++ " (" ++ toString t.operations.count ++ " operations)") s
  have hload := loadSnapshot_on_none t (s := s₁) (by rw [hcore]; exact hstore)
  obtain ⟨accounts, s₂, hall, hrun⟩ := execute_enters (goesOn_steps he ht hsteps)
    { success := true, tweakId := t.id } s₁
  have hsave : (saveSnapshot t).on s₂ = (.ok (), s₂) :=
    withStore_on_none _ _ _ _ ((hall.store (runSteps_operate hsteps)).trans
      ((congrArg Core.store hcore).trans hstore))
  obtain ⟨millis, s', hfinish, hcore'⟩ := finish_on (t := t) (s := s₂) "APPLY" s.host.clock
    (({ success := true, tweakId := t.id } : Result).enter
      ((steps.map Step.label).zip accounts)).summary
    { ({ success := true, tweakId := t.id } : Result).enter
        ((steps.map Step.label).zip accounts) with requiresRestart := t.requiresRestart }
  refine ⟨steps, _, accounts, s₁, s₂, millis, s', hsteps, runSteps_labels hsteps, hcore, hall,
    hcore', ?_⟩
  rw [apply_begins _ hdetector, hmay, Bool.not_true, if_neg Bool.false_ne_true,
    Act.on_bind_of_ok hsay, Act.on_bind_of_ok hload, hsteps, Act.on_bind_of_ok (Act.on_result _ _),
    Act.on_bind_of_ok hrun, Act.on_bind_of_ok hsave]
  exact hfinish

theorem declines (hdetector : e.detector = none) (hmay : e.mayRun t.operations = false) :
    e.Declines t s := by
  obtain ⟨s₁, hsay, hcore⟩ := say_on (μ := μ) .warning speaker
    ("Refusing to apply " ++ t.id ++ ": " ++ Failure.notElevated.message) s
  obtain ⟨millis, s', hfinish, hcore'⟩ := finish_on (t := t) (s := s₁) "APPLY" s.host.clock
    Failure.notElevated.message (Result.refused t.id .notElevated)
  refine ⟨millis, s', hcore'.trans hcore, ?_⟩
  rw [apply_begins _ hdetector, hmay, Bool.not_false, if_pos rfl, refuse]
  exact (Act.on_bind_of_ok hsay).trans hfinish

end Engine

/-! ## The tweaks that are accounted for -/

/-- The mutator to which there are no values and no files, every key and service is there, and
every write goes well. -/
def Mutator.obliging {μ : Type} : Mutator μ where
  readValue _ _ _ := return .missingValue
  keyExists _ _ := return true
  queryService service := return { name := service, found := true }
  pathExists _ := return false
  readText _ := return .null
  write w := return w.wellDone

theorem Mutator.obliging_answers {μ : Type} : (Mutator.obliging : Mutator μ).Answers where
  readValue _ _ _ := .pure _
  keyExists _ _ := .pure _
  queryService _ := .pure _
  pathExists _ := .pure _
  readText _ := .pure _
  write _ := .pure _
  texts _ _ _ _ _ _ h := by
    cases h
    exact ⟨nofun, nofun⟩

/-- Every item has one of the results. -/
theorem mapM_mem {α β : Type} {f : α → Except Failure β} : ∀ {xs : List α} {ys : List β},
    xs.mapM f = .ok ys → ∀ x ∈ xs, ∃ y ∈ ys, f x = .ok y
  | [], _, _ => List.forall_mem_nil _
  | x :: xs, ys, h => by
    rw [List.mapM_cons] at h
    obtain ⟨y, hy, h⟩ := ok_of_bind h
    obtain ⟨rest, hrest, h⟩ := ok_of_bind h
    cases h
    exact List.forall_mem_cons.mpr ⟨⟨y, List.mem_cons_self, hy⟩, fun x hx => by
      obtain ⟨y', hy', hf⟩ := mapM_mem hrest x hx
      exact ⟨y', List.mem_cons_of_mem _ hy', hf⟩⟩

namespace Engine

variable {μ : Type} {t : Tweak}

theorem stepsFor_mem {ω : Type} (tweakId : String) (side : Side) {ops : List ω}
    (step : Slot → ω → Step μ) {op : ω} (h : op ∈ ops) :
    ∃ slot, step slot op ∈ stepsFor tweakId side ops step := by
  obtain ⟨i, hi, rfl⟩ := List.getElem_of_mem h
  exact ⟨⟨tweakId, side, i⟩, List.mem_map.mpr ⟨(ops[i], i), by simp [List.mem_zipIdx_iff_getElem?,
    List.getElem?_eq_getElem hi], rfl⟩⟩

/-- A payload that overflows stops the run even when everything is answered. -/
theorem runRegistry_overflows {op : RegistryOperation} (hop : op.Overflows) (slot : Slot)
    (s : Session μ) :
    goesOn ((({ mutator := .obliging } : Engine μ).runRegistry slot op).on s).1 = false := by
  obtain ⟨hact, hvalue⟩ := RegistryOperation.stops_eq_true.mp (RegistryOperation.stops_iff.mpr hop)
  unfold runRegistry
  rw [hact]
  cases hresolve : op.resolveValue with
  | ok value? =>
    rw [hresolve] at hvalue
    cases hvalue
  | error f =>
    rw [hresolve] at hvalue
    unfold resolve
    split <;> exact hvalue

/-- A script that is run is trimmed first. -/
theorem trimmed_of_goesOn {e : Engine μ} {op : ScriptOperation} {s : Session μ}
    (h : goesOn ((e.runScript op).on s).1 = true) :
    goesOn (Detection.trimmed op.script) = true := by
  unfold runScript runText at h
  cases htext : Detection.trimmed op.script with
  | ok text => rfl
  | error f =>
    rw [htext] at h
    exact h

/-- A tweak the obliging mutator accounts for is sound. -/
theorem sound_of_accountsFor {s : Session μ}
    (h : ({ mutator := .obliging } : Engine μ).AccountsFor t s) : t.operations.Sound := by
  obtain ⟨steps, labels, accounts, s₁, s₂, -, -, hsteps, -, -, hall, -⟩ := h
  have hgo := hall.goesOn
  obtain ⟨scripts, hscripts, hsteps⟩ := ok_of_bind hsteps
  cases hsteps
  constructor
  · intro op hop hoverflows
    obtain ⟨slot, hmem⟩ := stepsFor_mem t.id .apply (fun slot op => (⟨op.describe,
      ({ mutator := .obliging } : Engine μ).runRegistry slot op⟩ : Step μ)) hop
    obtain ⟨s, hs⟩ := hgo _ (List.mem_append_left _ (List.mem_append_left _
      (List.mem_append_left _ hmem)))
    cases hs.symm.trans (runRegistry_overflows hoverflows slot s)
  · intro op hop
    obtain ⟨st, hst, hstep⟩ := mapM_mem hscripts op hop
    obtain ⟨label, hlabel, hstep⟩ := ok_of_bind hstep
    cases hstep
    obtain ⟨s, hs⟩ := hgo _ (List.mem_append_left _ (List.mem_append_right _ hst))
    exact ScriptOperation.trimmable_of hlabel (trimmed_of_goesOn hs)

end Engine

/-- **A malformed operation costs only itself**, unless it overflows or cannot be trimmed.  A
tweak is settled by every engine without a detector and a store, whose calls answer or fail in a
way that is recorded, exactly when its operations are sound: it is declined for want of rights, or
else every operation runs and is accounted for, in order, as applied, noted or failed, and the
result is successful. -/
theorem Tweak.settled_iff {μ : Type} [Inhabited μ] (t : Tweak) :
    (∀ (e : Engine μ) (s : Session μ), e.mutator.Answers → e.detector = none → s.store = none →
      e.Settles t s) ↔ t.operations.Sound := by
  constructor
  · intro h
    have hsettles := h { mutator := .obliging } { host := { machine := default } }
      Mutator.obliging_answers rfl rfl
    have hmay : ({ mutator := .obliging } : Engine μ).mayRun t.operations = true :=
      Bool.or_true _
    rw [Engine.Settles, if_pos hmay] at hsettles
    exact Engine.sound_of_accountsFor hsettles
  · intro ht e s he hdetector hstore
    unfold Engine.Settles
    split
    · next hmay => exact Engine.accountsFor_of_sound he ht hdetector hmay hstore
    · next hmay => exact Engine.declines hdetector (Bool.eq_false_iff.mpr hmay)

/-- A value that is no number, a key, and a script that is empty. -/
def sampleMalformed : Datum := .object [("id", .text "t"), ("operations", .object
  [("registryOperations", .list
      [.object [("hive", .int 0x80000001), ("keyPath", .text "a"), ("valueName", .text "v"),
        ("value", .text "x")],
       .object [("hive", .int 0x80000001), ("keyPath", .text "a"),
        ("operation", .text "CreateKey")]]),
   ("scriptOperations", .list [.object [("script", .int 0), ("description", .text "Clean")]])])]

/-- The malformed operations of the sample fail and the key is made. -/
theorem sample_settled : ∃ t, Tweak.ofDatum sampleMalformed "" = .ok t ∧ t.operations.Sound ∧
    (∀ (e : Engine Machine) (s : Session Machine), e.mutator.Answers → e.detector = none →
      s.store = none → e.Settles t s) ∧
    ((Engine.apply { mutator := .obliging } (fun _ => false) t).on
      ({ host := { machine := {} } } : Session Machine)).1.map
        (fun r => (r.success, r.applied.map Datum.display, r.failed.map Datum.display)) =
      .ok (true, ["CreateKey HKCU\\a"],
        ["Set HKCU\\a\\v = x (DWord): Cannot use 'x' as a DWord value",
         "Clean: Script operation has an empty script"]) := by
  have hmachine : Inhabited Machine := ⟨{}⟩
  have hsound : ∀ t, Tweak.ofDatum sampleMalformed "" = .ok t → t.operations.Sound := by
    intro t ht
    cases ht
    exact ⟨List.forall_mem_cons.mpr ⟨nofun, List.forall_mem_singleton.mpr nofun⟩,
      List.forall_mem_singleton.mpr (.inr ⟨rfl, rfl⟩)⟩
  refine ⟨_, rfl, hsound _ rfl, (Tweak.settled_iff _).mpr (hsound _ rfl), ?_⟩
  decide +kernel

/-- A key and a script that is a number. -/
def sampleSpoiled : Datum := .object [("id", .text "t"), ("operations", .object
  [("registryOperations", .list
      [.object [("hive", .int 0x80000001), ("keyPath", .text "a"),
        ("operation", .text "CreateKey")]]),
   ("scriptOperations", .list [.object [("script", .int 5)]])])]

/-- The script keeps the key from being made, even if every call answers. -/
theorem sample_spoils : ∃ t f s', Tweak.ofDatum sampleSpoiled "" = .ok t ∧
    (Mutator.obliging : Mutator Machine).Answers ∧
    (Engine.apply { mutator := .obliging } (fun _ => false) t).on
      ({ host := { machine := {} } } : Session Machine) = (.error f, s') :=
  ⟨_, _, _, rfl, Mutator.obliging_answers, rfl⟩

end TweakEngine
