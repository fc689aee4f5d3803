/-
# Snapshots that are read in part

A snapshot is read line by line (`Snapshot.linesOf`), and each line notes the capture of one
operation, or nothing, or cannot be read.  Reading ends with the first line that cannot be read,
and what the lines before it noted stays (`Snapshot.Reads`).  So a reading that fails is no
reading at all exactly when the lines before the failing one note nothing new
(`Snapshot.noteAll_eq_iff`), and applying then goes on with whatever was noted
(`Engine.apply_goes_on`).

With one line damaged, one operation has its original and the next one what is there now
(`sample_half_read`).
-/

import TweakEngine.Proofs.DamagedSnapshots
import TweakEngine.Proofs.TweakRuns

namespace TweakEngine

namespace Snapshot

open Store

/-! ## Lines -/

/-- The capture of one of the operations that apply a tweak. -/
inductive Note
  | registry (index : Nat) (c : RegistryCapture)
  | service (index : Nat) (c : ServiceCapture)
  | file (index : Nat) (c : FileCapture)

namespace Note

/-- Keeps the capture unless its operation has one. -/
def keep (tweakId : String) : Note → Memory → Memory
  | registry i c, m => { m with registry := (m.registry.keep ⟨tweakId, .apply, i⟩ c).1 }
  | service i c, m => { m with services := (m.services.keep ⟨tweakId, .apply, i⟩ c).1 }
  | file i c, m => { m with files := (m.files.keep ⟨tweakId, .apply, i⟩ c).1 }

/-- The operation has a capture. -/
def Known (tweakId : String) (m : Memory) : Note → Prop
  | registry i _ => Assoc.get? ⟨tweakId, .apply, i⟩ m.registry ≠ none
  | service i _ => Assoc.get? ⟨tweakId, .apply, i⟩ m.services ≠ none
  | file i _ => Assoc.get? ⟨tweakId, .apply, i⟩ m.files ≠ none

end Note

/-- What a line of a snapshot says: the capture of an operation, nothing about any operation, or
that it cannot be read. -/
abbrev Line := Except Failure (Option Note)

/-- Keeps captures one after the other. -/
def noteAll (tweakId : String) (notes : List Note) (m : Memory) : Memory :=
  notes.foldl (fun m n => n.keep tweakId m) m

/-- The captures in the lines before the first one that cannot be read. -/
def notesOf : List Line → List Note
  | .ok note? :: lines => note?.toList ++ notesOf lines
  | _ => []

/-- How lines end: with the first one that cannot be read, or well. -/
def endOf : List Line → Except Failure Unit
  | [] => .ok ()
  | .ok _ :: lines => endOf lines
  | .error f :: _ => .error f

/-- The line of an entry. -/
def lineOf {ω α : Type} (ops : List ω) (read : ω → Datum → Except Failure α)
    (note : Nat → α → Note) (e : String × Datum) : Line :=
  match position? e.1 ops.length with
  | none => .ok none
  | some i => match ops[i]? with
    | none => .ok none
    | some op => (read op e.2).map fun c => some (note i c)

/-- The lines of the captures of one sort. -/
def linesOfPart {ω α : Type} (ops : List ω) (read : ω → Datum → Except Failure α)
    (note : Nat → α → Note) (snapshot : Datum) (name : String) : List Line :=
  match part snapshot name with
  | .error f => [.error f]
  | .ok entries => entries.map (lineOf ops read note)

/-- The lines of a snapshot. -/
def linesOf (t : Tweak) (snapshot : Datum) : List Line :=
  linesOfPart t.operations.registry registryCapture .registry snapshot "registry" ++
    (linesOfPart t.operations.services (fun _ => serviceCapture) .service snapshot "services" ++
      linesOfPart t.operations.files (fun _ => fileCapture) .file snapshot "files")

/-- Going through lines notes what they say and ends as they end. -/
def Reads (tweakId : String) (a : Act Memory Unit) (lines : List Line) : Prop :=
  ∀ m, a.on m = (endOf lines, noteAll tweakId (notesOf lines) m)

variable {tweakId : String} {lines more : List Line} {m : Memory} {notes : List Note} {n : Note}

theorem noteAll_append (notes' : List Note) :
    noteAll tweakId (notes ++ notes') m = noteAll tweakId notes' (noteAll tweakId notes m) :=
  List.foldl_append

theorem endOf_append : endOf (lines ++ more) = endOf lines >>= fun _ => endOf more := by
  induction lines with
  | nil => rfl
  | cons line lines ih =>
    cases line with
    | error f => rfl
    | ok note? => exact ih

/-- Further lines count when the first ones end well. -/
theorem notesOf_append : notesOf (lines ++ more) =
    notesOf lines ++ if endOf lines = .ok () then notesOf more else [] := by
  induction lines with
  | nil => simp [notesOf, endOf]
  | cons line lines ih =>
    cases line with
    | error f => simp [notesOf, endOf]
    | ok note? => rw [List.cons_append, notesOf, ih, notesOf, List.append_assoc, endOf]

theorem Reads.bind {a b : Act Memory Unit} (ha : Reads tweakId a lines)
    (hb : Reads tweakId b more) : Reads tweakId (a >>= fun _ => b) (lines ++ more) := by
  intro m
  rw [Act.on_bind, ha, endOf_append, notesOf_append, noteAll_append]
  cases endOf lines with
  | error f => rfl
  | ok => exact hb _

/-! ## Reading a snapshot -/

section

variable {ω α : Type} {p : Part Memory (Captures α)} {ops : List ω}
  {read : ω → Datum → Except Failure α} {note : Nat → α → Note}

/-- The captures of one sort are read line by line. -/
theorem reads_restore (hget : ∀ c m, p.get (p.set c m) = c) (hself : ∀ m, p.set (p.get m) m = m)
    (hset : ∀ c c' m, p.set c (p.set c' m) = p.set c m)
    (hnote : ∀ i c m, (note i c).keep tweakId m =
      p.set ((p.get m).keep ⟨tweakId, .apply, i⟩ c).1 m) :
    ∀ entries, Reads tweakId (p.lift (restore tweakId ops read entries))
      (entries.map (lineOf ops read note))
  | [], m => congrArg (Prod.mk (Except.ok ())) (hself m)
  | (key, d) :: entries, m => by
    have ih : Reads tweakId (p.lift (restore tweakId ops read entries))
        (entries.map (lineOf ops read note)) := reads_restore hget hself hset hnote entries
    rw [List.map_cons]
    unfold restore lineOf
    dsimp only
    cases position? key ops.length with
    | none => exact ih m
    | some i =>
      dsimp only
      cases ops[i]? with
      | none => exact ih m
      | some op =>
        dsimp only
        cases read op d with
        | error f => exact congrArg (Prod.mk (Except.error f)) (hself m)
        | ok c =>
          have hrest := ih ((note i c).keep tweakId m)
          rw [Part.on_lift, hnote, hget, hset] at hrest
          rw [Part.on_lift]
          refine hrest.trans ?_
          rw [← hnote]
          rfl

/-- The captures of one sort are found in the snapshot and read. -/
theorem Reads.part (note : Nat → α → Note) {d : Datum} {name : String}
    (h : ∀ entries, Reads tweakId (p.lift (restore tweakId ops read entries))
      (entries.map (lineOf ops read note))) :
    Reads tweakId (Act.result (Store.part d name) >>= fun entries =>
      p.lift (restore tweakId ops read entries)) (linesOfPart ops read note d name) := by
  intro m
  unfold linesOfPart
  rw [Act.on_bind, Act.on_result]
  cases Store.part d name with
  | error f => rfl
  | ok entries => exact h entries m

end

/-- **A snapshot is read line by line** until a line cannot be read. -/
theorem reads_restoreAll (t : Tweak) (d : Datum) : Reads t.id (restoreAll t d) (linesOf t d) := by
  have hall : restoreAll t d =
      (Act.result (part d "registry") >>= fun es =>
        Memory.registryPart.lift (restore t.id t.operations.registry registryCapture es)) >>=
      fun _ => (Act.result (part d "services") >>= fun es =>
        Memory.servicesPart.lift
          (restore t.id t.operations.services (fun _ => serviceCapture) es)) >>=
      fun _ => Act.result (part d "files") >>= fun es =>
        Memory.filesPart.lift (restore t.id t.operations.files (fun _ => fileCapture) es) := by
    simp only [restoreAll, bind_assoc]
  rw [hall]
  refine .bind (.part .registry ?_) (.bind (.part .service ?_) (.part .file ?_))
  all_goals
    exact reads_restore (fun _ _ => rfl) (fun _ => rfl) (fun _ _ _ => rfl) fun _ _ _ => rfl

/-! ## What stays of a reading -/

theorem keep_of_known (h : n.Known tweakId m) : n.keep tweakId m = m := by
  have hkeep : ∀ {α : Type} {c : Captures α} {slot : Slot} {a : α}, Assoc.get? slot c ≠ none →
      (c.keep slot a).1 = c := by
    intro α c slot a hc
    obtain ⟨b, hb⟩ := Option.ne_none_iff_exists'.mp hc
    rw [Captures.keep, hb]
  cases n with
  | registry | service | file => rw [Note.keep, hkeep h]

theorem known_keep : n.Known tweakId (n.keep tweakId m) := by
  cases n with
  | registry | service | file =>
    rw [Note.Known, Note.keep, Captures.get?_keep, if_pos rfl]
    exact nofun

/-- What is captured stays captured. -/
theorem Note.Known.keep (h : n.Known tweakId m) (n' : Note) :
    n.Known tweakId (n'.keep tweakId m) := by
  have hkeep : ∀ {α : Type} {c : Captures α} {slot slot' : Slot} {a : α},
      Assoc.get? slot c ≠ none → Assoc.get? slot (c.keep slot' a).1 ≠ none := by
    intro α c slot slot' a hc
    rw [Captures.get?_keep]
    split
    · exact Option.some_ne_none _
    · exact hc
  cases n <;> cases n' <;> first | exact h | exact hkeep h

theorem Note.Known.noteAll (h : n.Known tweakId m) :
    ∀ notes, n.Known tweakId (noteAll tweakId notes m) := by
  intro notes
  induction notes generalizing m with
  | nil => exact h
  | cons n' notes ih => exact ih (h.keep n')

/-- **Nothing is noted anew** exactly when every operation that is noted had a capture. -/
theorem noteAll_eq_iff :
    noteAll tweakId notes m = m ↔ ∀ n ∈ notes, n.Known tweakId m := by
  constructor
  · intro h n hn
    obtain ⟨before, after, rfl⟩ := List.append_of_mem hn
    rw [← h, noteAll_append]
    exact known_keep.noteAll after
  · intro h
    induction notes with
    | nil => rfl
    | cons n notes ih =>
      have hstep : noteAll tweakId (n :: notes) m = noteAll tweakId notes (n.keep tweakId m) := rfl
      rw [hstep, keep_of_known (h n List.mem_cons_self)]
      exact ih fun n' hn' => h n' (List.mem_cons_of_mem _ hn')

/-! ## Loading a snapshot -/

variable {μ : Type} {s s' : Session μ} {st : Store} {t : Tweak} {f : Failure}

/-- The value of the snapshot of a tweak, if there is one. -/
def found? (st : Store) (t : Tweak) (d : Disk) : Except Failure (Option Datum) := do
  match Assoc.get? t.key st.index with
  | none => return none
  | some entry =>
    let file ← Path.ofDatum entry.filePath
    if !(← ((Disk.present file).on d).1) then return none
    return some (← ((Disk.readJson file).on d).1)

/-- The lines that loading goes through.  A snapshot that there is and that cannot be come by is
one line that cannot be read. -/
def loadedLines (st : Store) (t : Tweak) (d : Disk) : List Line :=
  match found? st t d with
  | .error f => [.error f]
  | .ok none => []
  | .ok (some snapshot) => linesOf t snapshot

/-- What loading leaves noted. -/
def loadedNotes (st : Store) (t : Tweak) (d : Disk) : List Note := notesOf (loadedLines st t d)

/-- The session after its captures were read up to a line that cannot be read. -/
def readInPart (st : Store) (t : Tweak) (s : Session μ) : Session μ :=
  { s with memory := noteAll t.id (loadedNotes st t s.host.disk) s.memory }

open Session

/-- Looking at the files leaves the session as it is. -/
theorem looking_on {α : Type} {a : Act Disk α} (h : ∀ d, (a.on d).2 = d) (s : Session μ) :
    (onHost (Host.onDisk a)).on s = ((a.on s.host.disk).1, s) := by
  rw [onHost, Part.on_lift, Host.onDisk, Part.on_lift, hostPart, Host.diskPart]
  dsimp only
  rw [h]

/-- Loading goes through its lines.  It ends as they end, and a failure leaves noted what the lines
before it note. -/
theorem load_through (st : Store) (t : Tweak) (s : Session μ) : ∃ found s₁,
    (load st t).on s = match endOf (loadedLines st t s.host.disk) with
      | .error f => (.error f, readInPart st t s)
      | .ok () => (.ok found, s₁) := by
  unfold readInPart loadedNotes loadedLines found? load
  cases Assoc.get? t.key st.index with
  | none => exact ⟨_, _, rfl⟩
  | some entry =>
    dsimp only
    cases Path.ofDatum entry.filePath with
    | error f => exact ⟨false, s, rfl⟩
    | ok file =>
      rw [ok_bind, Act.on_bind_of_ok (Act.on_result _ _), Act.on_bind, looking_on fun _ => rfl]
      cases ((Disk.present file).on s.host.disk).1 with
      | error f => exact ⟨false, s, rfl⟩
      | ok there =>
        cases there with
        | false => exact ⟨_, _, rfl⟩
        | true =>
          dsimp only
          rw [ok_bind, if_neg (by decide), if_neg (by decide), Act.on_bind,
            looking_on (Disk.readJson_reads file)]
          cases ((Disk.readJson file).on s.host.disk).1 with
          | error f => exact ⟨false, s, rfl⟩
          | ok d =>
            dsimp only
            rw [ok_bind, Act.on_bind, Part.on_lift, reads_restoreAll t d]
            dsimp only [pure, Except.pure]
            cases endOf (linesOf t d) with
            | error f => exact ⟨false, s, rfl⟩
            | ok => exact ⟨_, _, rfl⟩

theorem load_fails_iff : (load st t).on s = (.error f, s') ↔
    endOf (loadedLines st t s.host.disk) = .error f ∧ s' = readInPart st t s := by
  obtain ⟨found, s₁, hload⟩ := load_through st t s
  rw [hload]
  cases endOf (loadedLines st t s.host.disk) with
  | error g =>
    dsimp only
    rw [Prod.mk.injEq, Except.error.injEq, Except.error.injEq, eq_comm (a := s')]
  | ok => exact ⟨nofun, nofun⟩

end Snapshot

namespace Engine

open Session

variable {μ : Type} {e : Engine μ} {cancelled : Session μ → Bool} {s s₀ s₁ s' : Session μ}
  {st : Snapshot.Store} {t : Tweak} {f : Failure}

/-- What applying does once captures were read. -/
def applyRest (e : Engine μ) (cancelled : Session μ → Bool) (t : Tweak) (start : Moment) :
    Work μ Result := do
  let steps ← Act.result (e.runSteps t.id .apply t.operations)
  let r ← execute cancelled steps { success := true, tweakId := t.id }
  saveSnapshot t
  let r := { r with requiresRestart := r.success && t.requiresRestart }
  finish "APPLY" t start r.summary r

/-- Reading the captures of a tweak ends with a failure only if that is not one that is said. -/
theorem loadSnapshot_on_failed (hst : s.store = some st) (hcovers : s.memory.covers t = false)
    (h : (Snapshot.load st t).on s = (.error f, s')) :
    ∃ s₁, s₁.core = s'.core ∧ (loadSnapshot t).on s =
      (if f.isReadingFault then .ok () else .error f, s₁) := by
  have hview : (memoryPart.lift (Act.view fun m => m.covers t) : Work μ Bool).on s =
      (.ok (s.memory.covers t), s) := rfl
  have hopen : (openStore? : Work μ _).on s = (.ok (some st), s) := by rw [← hst]; rfl
  rw [loadSnapshot, Act.on_bind_of_ok hview, hcovers, if_neg Bool.false_ne_true, withStore,
    Act.on_bind_of_ok hopen]
  dsimp only
  rw [Act.rescue, bind_assoc, Act.on_bind, Act.on_attempt, Act.on_discard, h]
  dsimp only [Functor.map, Except.map]
  have hcaught : (f.isSystem || f.isValue || f.isDeclared) = f.isReadingFault := rfl
  rw [hcaught]
  cases f.isReadingFault with
  | false => exact ⟨s', rfl, rfl⟩
  | true =>
    obtain ⟨s₁, hsaid, hcore⟩ := say_on (μ := μ) .warning speaker
      ("Could not load snapshot for " ++ t.id ++ ": " ++ f.message) s'
    exact ⟨s₁, hcore, hsaid⟩

/-- The lines are settled by the files alone. -/
theorem load_fails_of_core (hcore : s₁.core = s.core)
    (h : (Snapshot.load st t).on s = (.error f, s')) :
    ∃ s₁', (Snapshot.load st t).on s₁ = (.error f, s₁') ∧ s₁'.core = s'.core := by
  obtain ⟨hend, rfl⟩ := Snapshot.load_fails_iff.mp h
  obtain ⟨-, hdisk, hmemory, -⟩ := Core.mk.inj hcore
  refine ⟨_, Snapshot.load_fails_iff.mpr ⟨hdisk ▸ hend, rfl⟩, ?_⟩
  unfold Snapshot.readInPart
  rw [hdisk, hmemory]
  have hwith : ∀ m, ({ s₁ with memory := m } : Session μ).core = { s.core with memory := m } :=
    fun m => congrArg (fun c : Core μ => { c with memory := m }) hcore
  exact hwith _

/-- **Applying goes on** when the captures cannot be read to their end: with a failure that is
said, from what was noted until then, and otherwise it ends there. -/
theorem apply_goes_on (hdet : (onHost (e.alreadyApplied t)).on s₀ = (.ok false, s))
    (hrun : e.mayRun t.operations = true) (hst : s.store = some st)
    (hcovers : s.memory.covers t = false) (h : (Snapshot.load st t).on s = (.error f, s')) :
    ∃ s₁, s₁.core = s'.core ∧ (e.apply cancelled t).on s₀ =
      if f.isReadingFault then (e.applyRest cancelled t s₀.host.clock).on s₁
      else (.error f, s₁) := by
  have hnow : (onHost Host.now : Work μ Moment).on s₀ = (.ok s₀.host.clock, s₀) := rfl
  obtain ⟨s₁, hsaid, hcore⟩ := say_on (μ := μ) .info speaker
    ("Applying tweak " ++ t.id ++ " (" ++ toString t.operations.count ++ " operations)") s
  obtain ⟨s₁', hload, hcore'⟩ := load_fails_of_core hcore h
  obtain ⟨-, -, hmemory, hstore⟩ := Core.mk.inj hcore
  obtain ⟨s₂, hcore₂, hloaded⟩ := loadSnapshot_on_failed (hstore.trans hst)
    ((congrArg (Memory.covers · t) hmemory).trans hcovers) hload
  refine ⟨s₂, hcore₂.trans hcore', ?_⟩
  unfold apply
  rw [Act.on_bind_of_ok hnow, Act.on_bind_of_ok hdet, if_neg Bool.false_ne_true, hrun,
    Bool.not_true, if_neg Bool.false_ne_true, Act.on_bind_of_ok hsaid, Act.on_bind, hloaded]
  cases f.isReadingFault <;> rfl

end Engine

/-- **Loading a snapshot that cannot be read to its end**, whatever it holds and whatever is
captured already.  Loading fails exactly when a line cannot be read, and all that it leaves behind
is what the lines before it note for operations without a capture.  So nothing is left behind
exactly when each of these operations had a capture.  Applying ends with the failure, or says it
and goes on from what was noted. -/
theorem Snapshot.load_in_part {μ : Type} (s : Session μ) (st : Snapshot.Store) (t : Tweak) :
    (∀ f s', (load st t).on s = (.error f, s') ↔
      endOf (loadedLines st t s.host.disk) = .error f ∧ s' = readInPart st t s) ∧
    ((readInPart st t s).memory = s.memory ↔
      ∀ n ∈ loadedNotes st t s.host.disk, n.Known t.id s.memory) ∧
    ∀ (e : Engine μ) (cancelled : Session μ → Bool) (s₀ : Session μ) (f : Failure),
      (Session.onHost (e.alreadyApplied t)).on s₀ = (.ok false, s) →
      e.mayRun t.operations = true → s.store = some st → s.memory.covers t = false →
      endOf (loadedLines st t s.host.disk) = .error f →
        ∃ s₁, s₁.core = (readInPart st t s).core ∧ (e.apply cancelled t).on s₀ =
          if f.isReadingFault then (e.applyRest cancelled t s₀.host.clock).on s₁
          else (.error f, s₁) :=
  ⟨fun _ _ => load_fails_iff, noteAll_eq_iff, fun _ _ _ _ hdet hrun hst hcovers hend =>
    Engine.apply_goes_on hdet hrun hst hcovers (load_fails_iff.mpr ⟨hend, rfl⟩)⟩

/-! ## A snapshot with a damaged line -/

namespace Engine

/-- Sets two values. -/
def twoValues : Tweak :=
  { id := "t"
    name := .text "T"
    operations := { registry := [
      { hive := .currentUser, keyPath := .text "X", valueName := .text "V", value := .int 1 },
      { hive := .currentUser, keyPath := .text "X", valueName := .text "W", value := .int 1 }] } }

/-- The captures of the registry for both operations. -/
def twoCaptures (s : Session Machine) : Option RegistryCapture × Option RegistryCapture :=
  (Assoc.get? ⟨"t", .apply, 0⟩ s.memory.registry, Assoc.get? ⟨"t", .apply, 1⟩ s.memory.registry)

/-- What a value was. -/
def wasNumber (n : BitVec 32) : Option RegistryCapture := some ⟨true, true, some (.dword n)⟩

def twoValuesStore : Snapshot.Store :=
  { directory := Path.ofText "/d"
    index := [("t", { tweakId := .text "t", tweakName := .text "T", timestamp := .null
                      filePath := .text "/d/t.json" })] }

/-- Both values are set to 1, and the store has a snapshot in which the first one was 5 and the
second one cannot be read. -/
def twoValuesSession : Session Machine :=
  { host := { damagedHost "\x7b\x7d"
        ("\x7b\"registry\":\x7b\"0\":\x7b\"existed_before\":1,\"original_value\":5\x7d," ++
          "\"1\":\x7b\"original_value\":\"\"\x7d\x7d\x7d") with
      machine := { keys := [((.currentUser, "x"),
        [("v", some (.dword 1)), ("w", some (.dword 1))])] } }
    store := some twoValuesStore }

theorem twoValues_load : ∃ f s', f.isReadingFault = true ∧ twoCaptures s' = (wasNumber 5, none) ∧
    (Snapshot.load twoValuesStore twoValues).on twoValuesSession = (.error f, s') := by
  have hfails : (Snapshot.load twoValuesStore twoValues).fails twoValuesSession (fun f s' =>
      f.isReadingFault && decide (twoCaptures s' = (wasNumber 5, none))) = true := by
    decide +kernel
  obtain ⟨f, s', hload, htest⟩ := Act.of_fails hfails
  obtain ⟨hf, hs'⟩ := Bool.and_eq_true_iff.mp htest
  exact ⟨f, s', hf, of_decide_eq_true hs', hload⟩

/-- Applying says that the second value cannot be read and goes on with the original of the first
one noted. -/
theorem sample_goes_on : ∃ s₁, twoCaptures s₁ = (wasNumber 5, none) ∧
    (damagedEngine.apply (fun _ => false) twoValues).on twoValuesSession =
      (damagedEngine.applyRest (fun _ => false) twoValues twoValuesSession.host.clock).on s₁ := by
  obtain ⟨f, s', hf, hs', hload⟩ := twoValues_load
  obtain ⟨hfails, -, happly⟩ := Snapshot.load_in_part twoValuesSession twoValuesStore twoValues
  obtain ⟨hend, rfl⟩ := (hfails f s').mp hload
  obtain ⟨s₁, hcore, hrest⟩ := happly damagedEngine (fun _ => false) twoValuesSession f rfl rfl rfl
    (by decide +kernel) hend
  rw [hf, if_pos rfl] at hrest
  have hmemory : s₁.memory = _ := congrArg Core.memory hcore
  exact ⟨s₁, by rw [← hs', twoCaptures, hmemory]; rfl, hrest⟩

/-- Nothing was captured before the snapshot was loaded and loading it fails, but the first original
is there.  Applying then takes the value that it finds, which is no original, for the second
one. -/
theorem sample_half_read :
    (∃ f s', (Snapshot.load twoValuesStore twoValues).on twoValuesSession = (.error f, s') ∧
      twoCaptures twoValuesSession = (none, none) ∧ twoCaptures s' = (wasNumber 5, none)) ∧
    ∃ r s', (damagedEngine.apply (fun _ => false) twoValues).on twoValuesSession = (.ok r, s') ∧
      twoCaptures s' = (wasNumber 5, wasNumber 1) := by
  constructor
  · obtain ⟨f, s', -, hs', hload⟩ := twoValues_load
    exact ⟨f, s', hload, rfl, hs'⟩
  · have happly : (damagedEngine.apply (fun _ => false) twoValues).succeeds twoValuesSession
        (fun _ s' => decide (twoCaptures s' = (wasNumber 5, wasNumber 1))) = true := by
      decide +kernel
    obtain ⟨r, s', hs', htest⟩ := Act.of_succeeds happly
    exact ⟨r, s', hs', of_decide_eq_true htest⟩

end Engine
end TweakEngine
