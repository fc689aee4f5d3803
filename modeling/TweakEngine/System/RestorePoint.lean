/-
# Restore points

A restore point is a state of the whole system that the platform keeps.  They are made
and listed by commands of the platform's shell, and there are none elsewhere.  The
platform writes dates in two forms, both read by `RestorePoint.dateOf`.
-/

import TweakEngine.Datum.Items
import TweakEngine.System.Shell

namespace TweakEngine

/-- A state of the system that the platform keeps. -/
structure RestorePoint where
  number : Int
  description : String
  created : Option Moment

/-- Access to the restore points of a system. -/
structure RestorePoints where
  /-- Whether the platform has restore points. -/
  available : Bool
  /-- Nothing is made in a dry run. -/
  dryRun : Bool := false

namespace RestorePoint

/-- The speaker of restore points. -/
def speaker : String := "tweakd.core.restore"

/-- The first second after the year 9999. -/
def endOfCalendar : Int := 253402300800

/-- The first second whose year the platform cannot count. -/
def endOfYears : Int := 67768036191676800

/-- The first second that the platform cannot count. -/
def endOfTime : Int := 0x8000000000000000

/-- The moment that lies a number of milliseconds after the beginning of 1970. -/
def ofMillis (millis : Int) : Except Failure Moment := do
  let seconds := Decimal.ofInt millis / 1000.0
  let whole := (Decimal.truncate? seconds).getD 0
  if Decimal.isInfinite seconds then
    throw (.overflow "integer division result too large for a float")
  if endOfTime ≤ whole then throw (.overflow "timestamp out of range for platform time_t")
  if endOfYears ≤ whole then throw (.system (.stated .tooLarge
    ("[Errno 75] " ++ SystemErrorKind.tooLarge.wording.2)))
  if endOfCalendar ≤ whole then
    let (year, _) := Moment.dateAfter (whole.fdiv 86400)
    throw (.badValue ("year " ++ Decimal.intText year ++ " is out of range"))
  return ⟨Moment.microsOf seconds⟩

/-- The characters from a separator on, without it. -/
def after (sep : Char) (cs : List Char) : List Char := (cs.dropWhile (· != sep)).drop 1

/-- The characters before a separator, or all of them. -/
def upTo (sep : Char) (cs : List Char) : List Char := cs.takeWhile (· != sep)

/-- The number of two digits.  The first one and a `plain` second one are ASCII. -/
def pair? (plain : Char → Bool) (a b : Char) : Option Int := do
  if !a.isDigit || (plain a && !b.isDigit) then none
  let a ← Text.decimalDigit? a
  let b ← Text.decimalDigit? b
  return a * 10 + b

/-- The moment that fourteen digits write: year, month, day, hour, minute and second. -/
def ofDigits? : List Char → Option Moment
  | [y₁, y₂, y₃, y₄, m₁, m₂, d₁, d₂, h₁, h₂, n₁, n₂, s₁, s₂] => do
    let year ← [y₁, y₂, y₃, y₄].mapM Text.decimalDigit?
    let month ← pair? (fun _ => true) m₁ m₂
    let day ← pair? (fun c => c == '0' || c == '3') d₁ d₂
    let hour ← pair? (· == '2') h₁ h₂
    let minute ← pair? (fun _ => false) n₁ n₂
    let second ← pair? (fun _ => false) s₁ s₂
    Moment.ofFields? (year.foldl (fun n d => n * 10 + d) 0 : Nat) month day hour minute second
  | _ => none

/-- The moment that the platform writes as `/Date(milliseconds)/` or with fourteen
digits; what is written otherwise is no date. -/
def dateOf (d : Datum) : Except Failure (Option Moment) :=
  let text := if d.truthy then d.display else ""
  let cs := text.toList
  if Text.contains text "/Date(" then
    let millis := upTo '-' (upTo '+' (upTo ')' (upTo '(' (after '(' cs))))
    match Decimal.readInt (String.ofList millis) with
    | .ok n => some <$> ofMillis n
    | .error _ => .ok none
  else
    let digits := cs.take 14
    .ok (if digits.length = 14 && digits.all Text.isDigit then ofDigits? digits else none)

/-- A restore point out of its JSON form. -/
def ofDatum (d : Datum) : Except Failure RestorePoint :=
  match d with
  | .object fields => do
    let number ← ((Assoc.get? "SequenceNumber" fields).getD (.int 0)).toInt
    let description := ((Assoc.get? "Description" fields).getD (.text "")).display
    let created ← dateOf ((Assoc.get? "CreationTime" fields).getD .null)
    return { number, description, created }
  | d => .error (Failure.lacks d "get")

/-- The failures for which a restore point is passed over. -/
def isFault (f : Failure) : Bool := f.isValue || (f matches .mistyped _ | .noAttribute _)

end RestorePoint

namespace RestorePoints

open RestorePoint

variable {μ : Type}

/-- How many seconds a command may take. -/
def timeout : Int := 120

/-- Runs a command of the platform's shell, where there is one. -/
def shell (r : RestorePoints) (text : String) : Call μ ShellResult :=
  if r.available then Host.shell text (.int timeout)
  else return { success := false, error := "Not Windows" }

/-- Where the platform keeps the settings of its restore points. -/
def settingsKey : String :=
  "'HKLM:\\SOFTWARE\\Microsoft\\Windows NT\\CurrentVersion\\SystemRestore' "

/-- Whether the platform makes restore points; it is taken to do so if it does not say. -/
def isEnabled (r : RestorePoints) : Call μ Bool := do
  if !r.available then return false
  let result ← r.shell
    ("Get-ItemProperty -Path " ++ settingsKey ++
      "-Name 'RPSessionInterval' -ErrorAction SilentlyContinue | " ++
      "Select-Object -ExpandProperty RPSessionInterval")
  if !result.success || result.output = "" then return true
  match Decimal.readInt result.output with
  | .ok n => return n != 0
  | .error _ => return true

/-- Reads restore points one by one; those that cannot be read are passed over. -/
def readAll : List Datum → Call μ (List RestorePoint)
  | [] => return []
  | d :: ds => do
    match ← (Act.result (ofDatum d)).rescue isFault with
    | .ok p => return p :: (← readAll ds)
    | .error f =>
      Host.say .debug speaker ("Error parsing restore point: " ++ f.message)
      readAll ds

/-- The newest restore points, at most `limit` of them. -/
def list (r : RestorePoints) (limit : Datum) : Call μ (List RestorePoint) := do
  if !r.available then return []
  let result ← r.shell
    ("Get-ComputerRestorePoint | Sort-Object -Property SequenceNumber -Descending | " ++
      "Select-Object -First " ++ limit.display ++ " | " ++
      "Select-Object SequenceNumber, Description, CreationTime | ConvertTo-Json")
  if !result.success || result.output = "" then return []
  match Json.read result.output with
  | .error (.json fault) =>
    Host.say .error speaker ("Failed to parse restore points: " ++ fault.message)
    return []
  | .error f => throw f
  | .ok (.object fields) => readAll [.object fields]
  | .ok d => readAll (← Act.result d.iterate)

/-- Makes a restore point and gives its number. -/
def create (r : RestorePoints) (description : String) : Call μ (Option Int) := do
  if !r.available then
    Host.say .warning speaker "System Restore only available on Windows"
    return none
  let quoted := shellQuoted ("Tweakd: " ++ description)
  let full := String.ofList (quoted.toList.drop 1).dropLast
  if r.dryRun then
    Host.say .info speaker ("[DRY RUN] Would create restore point: " ++ full)
    return some 0
  discard (r.shell
    ("Set-ItemProperty -Path " ++ settingsKey ++
      "-Name 'SystemRestorePointCreationFrequency' -Value 0 -Type DWord -Force " ++
      "-ErrorAction SilentlyContinue"))
  let result ← r.shell
    ("Checkpoint-Computer -Description " ++ quoted ++ " " ++
      "-RestorePointType 'MODIFY_SETTINGS' -ErrorAction Stop")
  if !result.success then
    Host.say .error speaker ("Failed to create restore point: " ++ result.error)
    return none
  match ← r.list (.int 1) with
  | [] => return none
  | p :: _ =>
    Host.say .info speaker
      ("Created restore point: " ++ full ++ " (#" ++ Decimal.intText p.number ++ ")")
    return some p.number

end RestorePoints
end TweakEngine
