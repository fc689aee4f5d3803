/-
# Literals of the platform's shell

The shell takes five characters for a single quote: the apostrophe and four typographic ones.  Any
of them opens a literal, any of them closes it, and two in a row inside it stand for one
(`ShellLiteral.read`).  A text is put into a command as a literal in which only apostrophes are
written twice.  What the shell reads there is the text, and the literal ends where it should,
exactly when the text has no typographic quote (`ShellLiteral.read_shellQuoted_iff`): up to that
quote all is as it was written, and a quote that was written once ends the literal or swallows the
character after it.

The three requests that name a service in a command all put it there in this way
(`WindowsAccess.service_quoted`).  With a typographic quote in it, the rest of the name is read as
a command of its own (`WindowsAccess.sample_name_obeyed`).
-/

import TweakEngine.Proofs.SubtreeDeletion

namespace TweakEngine

namespace ShellLiteral

/-! ## Reading a literal -/

/-- The quotes that are no apostrophes: from `U+2018` to `U+201B`. -/
def isTypographic (c : Char) : Bool := 0x2018 ≤ c.toNat && c.toNat ≤ 0x201B

/-- The characters that open and close a literal. -/
def isQuote (c : Char) : Bool := c == '\'' || isTypographic c

/-- The text of a literal up to the quote that closes it, and what comes after that quote.  Of two
quotes in a row the second one stays. -/
def content : List Char → Option (List Char × List Char)
  | [] => none
  | c :: cs =>
    if isQuote c then
      match cs with
      | [] => some ([], [])
      | d :: ds =>
        if isQuote d then (content ds).map fun r => (d :: r.1, r.2) else some ([], d :: ds)
    else (content cs).map fun r => (c :: r.1, r.2)

/-- The text of the literal that some characters begin with, and what comes after the literal. -/
def read : List Char → Option (List Char × List Char)
  | [] => none
  | c :: cs => if isQuote c then content cs else none

variable {c d : Char} {cs rest : List Char}

theorem content_plain (hc : isQuote c = false) (cs : List Char) :
    content (c :: cs) = (content cs).map fun r => (c :: r.1, r.2) := by
  conv => lhs; unfold content
  rw [hc]
  rfl

theorem content_pair (hc : isQuote c = true) (hd : isQuote d = true) (cs : List Char) :
    content (c :: d :: cs) = (content cs).map fun r => (d :: r.1, r.2) := by
  simp [content, hc, hd]

/-- A quote that no quote comes after closes the literal. -/
theorem content_close (hc : isQuote c = true) (hrest : ∀ d ∈ rest.head?, isQuote d = false) :
    content (c :: rest) = some ([], rest) := by
  cases rest with
  | nil => simp [content, hc]
  | cons d rest => simp [content, hc, hrest d rfl]

/-- **A literal takes two characters for each quote of its text** and one for every other
character, and one for its end. -/
theorem length_of_content {text : List Char} (h : content cs = some (text, rest)) :
    cs.length = text.length + text.countP isQuote + 1 + rest.length := by
  induction cs using content.induct generalizing text with
  | case1 => cases h
  | case2 c hc =>
    simp only [content, hc, if_true] at h
    cases h
    rfl
  | case3 c hc d cs hd ih =>
    rw [content_pair hc hd] at h
    obtain ⟨r, hread, h⟩ := Option.map_eq_some_iff.mp h
    cases h
    have hlength := ih hread
    rw [List.length_cons, List.length_cons, List.length_cons, List.countP_cons_of_pos hd]
    omega
  | case4 c hc d cs hd =>
    simp only [content, hc, if_true, if_neg hd] at h
    cases h
    simp [Nat.add_comm]
  | case5 c cs hc ih =>
    rw [content_plain (Bool.eq_false_iff.mpr hc)] at h
    obtain ⟨r, hread, h⟩ := Option.map_eq_some_iff.mp h
    cases h
    have hlength := ih hread
    rw [List.length_cons, List.length_cons, List.countP_cons_of_neg hc]
    omega

/-! ## Writing a literal -/

/-- A text between the quotes of its literal. -/
def body (cs : List Char) : List Char := cs.flatMap fun c => if c = '\'' then ['\'', '\''] else [c]

theorem shellQuoted_toList (s : String) :
    (shellQuoted s).toList = '\'' :: (body s.toList ++ ['\'']) := by
  simp [shellQuoted, body]

theorem body_cons (c : Char) (cs : List Char) :
    body (c :: cs) = if c = '\'' then '\'' :: '\'' :: body cs else c :: body cs := by
  rw [body, List.flatMap_cons, ← body]
  split <;> rfl

theorem length_body (cs : List Char) : (body cs).length = cs.length + cs.count '\'' := by
  induction cs with
  | nil => rfl
  | cons c cs ih =>
    rw [body_cons, List.count_cons]
    by_cases hc : c = '\''
    · simp only [hc, if_true, beq_self_eq_true, List.length_cons, ih]
      omega
    · simp only [if_neg hc, beq_iff_eq, List.length_cons, ih]
      omega

/-- Without typographic quotes the written text is read. -/
theorem content_body (hcs : ∀ c ∈ cs, isTypographic c = false)
    (hrest : ∀ d ∈ rest.head?, isQuote d = false) :
    content (body cs ++ '\'' :: rest) = some (cs, rest) := by
  induction cs with
  | nil => exact content_close rfl hrest
  | cons c cs ih =>
    have hread := ih fun c' hc' => hcs c' (List.mem_cons_of_mem _ hc')
    rw [body_cons]
    by_cases hc : c = '\''
    · rw [if_pos hc, List.cons_append, List.cons_append, content_pair rfl rfl, hread, hc]
      rfl
    · have hplain : isQuote c = false := by simp [isQuote, hc, hcs c List.mem_cons_self]
      rw [if_neg hc, List.cons_append, content_plain hplain, hread]
      rfl

/-- Quotes are apostrophes or typographic. -/
theorem countP_isQuote (cs : List Char) :
    cs.countP isQuote = cs.count '\'' + cs.countP isTypographic := by
  induction cs with
  | nil => rfl
  | cons c cs ih =>
    rw [List.countP_cons, List.countP_cons, List.count_cons, ih]
    by_cases hc : c = '\''
    · subst hc
      simp only [show isQuote '\'' = true from rfl, show isTypographic '\'' = false from rfl,
        beq_self_eq_true, if_true, Bool.false_eq_true, if_false]
      omega
    · simp only [isQuote, beq_eq_false_iff_ne.mpr hc, Bool.false_or, Bool.false_eq_true, if_false]
      omega

/-- **The written literal is read as its text, and to its end,** exactly when the text has no
typographic quote. -/
theorem read_shellQuoted_iff {s : String} (hrest : ∀ d ∈ rest.head?, isQuote d = false) :
    read ((shellQuoted s).toList ++ rest) = some (s.toList, rest) ↔
      ∀ c ∈ s.toList, isTypographic c = false := by
  have hopen : read ((shellQuoted s).toList ++ rest) = content (body s.toList ++ '\'' :: rest) := by
    rw [shellQuoted_toList, List.cons_append, List.append_assoc]
    rfl
  rw [hopen]
  refine ⟨fun h => ?_, fun h => content_body h hrest⟩
  have hlength := length_of_content h
  rw [List.length_append, length_body, List.length_cons, countP_isQuote] at hlength
  have hnone : s.toList.countP isTypographic = 0 := by omega
  exact fun c hc => Bool.eq_false_iff.mpr (List.countP_eq_zero.mp hnone c hc)

end ShellLiteral

/-! ## Requests that name a service -/

section

variable {μ α β : Type} {argv : List Datum}

/-- The processes that were run, the last one first. -/
def Host.commands (h : Host μ) : List (List Datum) :=
  h.trail.filterMap fun e => match e with
    | .ran argv _ => some argv
    | _ => none

/-- The call runs one process, whether it succeeds or not. -/
def RunsOne (argv : List Datum) (a : Call μ α) : Prop :=
  ∀ h, (a.on h).2.commands = argv :: h.commands

theorem RunsOne.bind {a : Call μ α} {k : α → Call μ β} (ha : RunsOne argv a)
    (hk : ∀ x, (k x).Keeps Host.commands) : RunsOne argv (a >>= k) := by
  intro h
  have h₁ := ha h
  rw [Act.on_bind]
  revert h₁
  rcases a.on h with ⟨f | x, t⟩ <;> intro h₁
  · exact h₁
  · exact (hk x t).trans h₁

theorem runsOne_command (argv : List Datum) (timeout : Datum) :
    RunsOne argv (Host.command argv timeout : Call μ ShellResult) := by
  refine RunsOne.bind (fun _ => rfl) fun answer => ?_
  cases answer with
  | timedOut _ | failed _ => exact .pure _
  | ended code stdout stderr =>
    refine .bind (.result _) fun output => ?_
    dsimp only
    split
    · exact .bind (.pure _) fun _ => .pure _
    · exact .bind (.result _) fun _ => .pure _

end

/-- The requests that name a service in a command of the shell. -/
inductive ServiceRequest
  | query | stop | start
  deriving DecidableEq, Repr

namespace ServiceRequest

/-- The command up to the name of the service. -/
def before : ServiceRequest → String
  | query => "$s = Get-Service -Name "
  | stop => "Stop-Service -Name "
  | start => "Start-Service -Name "

/-- The command after the name of the service. -/
def after : ServiceRequest → String
  | query => " -ErrorAction SilentlyContinue; " ++
      "if ($s) \x7b $s | Select-Object Name, Status, StartType | ConvertTo-Json -Compress \x7d"
  | stop => " -Force" ++ " -ErrorAction Stop"
  | start => " -ErrorAction Stop"

/-- The process that is run for a request. -/
def command (r : ServiceRequest) (service : String) : List Datum :=
  ["powershell.exe", "-NoProfile", "-Command",
    r.before ++ shellQuoted service ++ r.after].map .text

/-- What an access does for a request. -/
def carryOut (w : WindowsAccess) (service : Datum) : ServiceRequest → Call Windows Unit
  | query => discard (w.queryService service)
  | stop => w.perform (.stopService service)
  | start => w.perform (.startService service)

theorem after_plain (r : ServiceRequest) :
    ∀ c ∈ r.after.toList.head?, ShellLiteral.isQuote c = false := by
  have hblank : r.after.toList.head? = some ' ' := by cases r <;> decide +kernel
  intro c hc
  rw [hblank] at hc
  cases hc
  decide

end ServiceRequest

namespace WindowsAccess

variable {w : WindowsAccess}

theorem queryManagement_keeps (service : Datum) :
    (queryManagement service).Keeps Host.commands := by
  refine .bind (fun _ => rfl) fun management => ?_
  cases management with
  | absent | broken => exact .bind (fun _ => rfl) fun _ => .pure _
  | services known =>
    dsimp only
    split <;> exact .pure _

theorem queryService_runsOne (hw : w.available = true) (s : String) :
    RunsOne (ServiceRequest.query.command s) (w.queryService (.text s)) := by
  intro h
  have htext : ServiceRequest.query.before ++ shellQuoted s ++ ServiceRequest.query.after =
      "$s = Get-Service -Name " ++ shellQuoted s ++ " -ErrorAction SilentlyContinue; " ++
        "if ($s) \x7b $s | Select-Object Name, Status, StartType | ConvertTo-Json -Compress \x7d" :=
    (String.append_assoc ..).symm
  rw [queryService, Act.on_bind_of_ok (requireProbe_on hw h),
    Act.on_bind_result (rfl : serviceText (.text s) = .ok s), ServiceRequest.command, htext]
  -- whatever the command wrote, no other process is run
  refine RunsOne.bind (runsOne_command _ _) (fun result => ?_) h
  split
  · exact .pure _
  extract_lets finish reading
  have hfinish : ∀ found, (finish found).Keeps Host.commands := by
    intro found
    cases found with
    | some s => exact .pure _
    | none =>
      refine .bind (queryManagement_keeps _) fun found => ?_
      cases found with
      | some s => exact .pure _
      | none => exact .throw _
  split
  · refine .bind (.rescue (.result _) _) fun read => ?_
    cases read with
    | ok s => exact .bind (.pure _) hfinish
    | error f => exact .bind (fun _ => rfl) fun _ => .bind (.pure _) hfinish
  · exact .bind (.pure _) hfinish

theorem controlService_runsOne (verb word options s : String) :
    RunsOne (["powershell.exe", "-NoProfile", "-Command",
        verb ++ " -Name " ++ shellQuoted s ++ options ++ " -ErrorAction Stop"].map .text)
      (w.controlService verb word options (.text s)) := by
  intro h
  rw [controlService, Act.on_bind_result (rfl : serviceText (.text s) = .ok s)]
  refine RunsOne.bind (runsOne_command _ _) (fun result => ?_) h
  split
  · exact .throw _
  · exact .pure ()

theorem carryOut_runsOne (hw : w.available = true) (r : ServiceRequest) (s : String) :
    RunsOne (r.command s) (r.carryOut w (.text s)) := by
  cases r with
  | query =>
    intro h
    rw [ServiceRequest.carryOut, Act.on_discard]
    exact queryService_runsOne hw s h
  | stop =>
    intro h
    have htext : ServiceRequest.stop.before ++ shellQuoted s ++ ServiceRequest.stop.after =
        "Stop-Service" ++ " -Name " ++ shellQuoted s ++ " -Force" ++ " -ErrorAction Stop" :=
      (String.append_assoc ..).symm
    rw [ServiceRequest.carryOut, perform, Act.on_bind_of_ok (requireMutator_on hw h),
      ServiceRequest.command, htext]
    exact controlService_runsOne _ _ _ s h
  | start =>
    intro h
    have htext : ServiceRequest.start.before ++ shellQuoted s ++ ServiceRequest.start.after =
        "Start-Service" ++ " -Name " ++ shellQuoted s ++ "" ++ " -ErrorAction Stop" := by
      rw [String.append_empty]
      rfl
    rw [ServiceRequest.carryOut, perform, Act.on_bind_of_ok (requireMutator_on hw h),
      ServiceRequest.command, htext]
    exact controlService_runsOne _ _ _ s h

theorem carryOut_refused (hw : w.available = false) (r : ServiceRequest) (service : Datum)
    (h : Host Windows) : ((r.carryOut w service).on h).2 = h := by
  have hprobe : w.requireProbe.on h = (.error (.probeUnavailable unavailableText), h) := by
    rw [requireProbe, hw]; rfl
  have hmutator : w.requireMutator.on h = (.error (.mutatorUnavailable unavailableText), h) := by
    rw [requireMutator, hw]; rfl
  cases r with
  | query => rw [ServiceRequest.carryOut, Act.on_discard, queryService, Act.on_bind, hprobe]
  | stop | start => rw [ServiceRequest.carryOut, perform, Act.on_bind, hmutator]

/-- **Naming a service in a command.**  On a platform that can be reached each request runs one
process, and the name stands in its command as a literal; elsewhere none is run.  The shell reads
that literal as the name, and up to the place where it was meant to end, exactly when the name has
no typographic quote. -/
theorem service_quoted (w : WindowsAccess) (r : ServiceRequest) (s : String) (h : Host Windows) :
    ((r.carryOut w (.text s)).on h).2.commands =
        (if w.available then [["powershell.exe", "-NoProfile", "-Command",
          r.before ++ shellQuoted s ++ r.after].map Datum.text] else []) ++ h.commands ∧
      (ShellLiteral.read (shellQuoted s ++ r.after).toList = some (s.toList, r.after.toList) ↔
        ∀ c ∈ s.toList, ¬(0x2018 ≤ c.toNat ∧ c.toNat ≤ 0x201B)) := by
  refine ⟨?_, ?_⟩
  · cases hw : w.available with
    | true => exact carryOut_runsOne hw r s h
    | false => exact congrArg Host.commands (carryOut_refused hw r _ h)
  · rw [String.toList_append, ShellLiteral.read_shellQuoted_iff r.after_plain]
    simp [ShellLiteral.isTypographic]

/-- A name with a typographic quote in it ends there, and the rest of it is a command. -/
theorem sample_name_obeyed :
    ((ServiceRequest.stop.carryOut {} (.text "Spooler\u2019; Restart-Computer #")).on
        { machine := {} }).2.commands =
      [["powershell.exe", "-NoProfile", "-Command",
        "Stop-Service -Name 'Spooler\u2019; Restart-Computer #' -Force -ErrorAction Stop"].map
          Datum.text] ∧
    ShellLiteral.read
        "'Spooler\u2019; Restart-Computer #' -Force -ErrorAction Stop".toList =
      some ("Spooler".toList, "; Restart-Computer #' -Force -ErrorAction Stop".toList) := by
  have htext : ServiceRequest.stop.before ++ shellQuoted "Spooler\u2019; Restart-Computer #" ++
      ServiceRequest.stop.after =
        "Stop-Service -Name 'Spooler\u2019; Restart-Computer #' -Force -ErrorAction Stop" := by
    decide +kernel
  refine ⟨?_, by decide +kernel⟩
  rw [carryOut_runsOne rfl .stop _ _, ServiceRequest.command, htext]
  rfl

end WindowsAccess
end TweakEngine
