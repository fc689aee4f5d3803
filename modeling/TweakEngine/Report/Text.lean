/-
# Reports as text

Tweaks, lists of tweaks and results of batches for a reader.  A `TextReport` says
whether text is painted and whether details are shown.  A list is a table: long cells
are cut, short ones are filled up with blanks.
-/

import TweakEngine.Report.Style
import TweakEngine.Service

namespace TweakEngine

/-- How reports for a reader look. -/
structure TextReport where
  painted : Bool := false
  verbose : Bool := false

namespace TextReport

/-- A text in a style, if text is painted. -/
def paint (r : TextReport) (s : Style) (text : String) : String :=
  if r.painted then s.paint text else text

/-- A text with blanks after it, up to a width. -/
def padded (width : Nat) (text : String) : String :=
  text ++ String.ofList (List.replicate (width - text.length) ' ')

/-- The refusal to write a value that is no text into a cell of a table. -/
def cellRefusal (width : Nat) (d : Datum) : Failure :=
  match Write.size d with
  | .error f => f
  | .ok n =>
    .mistyped (if n ≤ width then "unsupported format string passed to " ++ d.form ++ ".__format__"
      else match d with
        | .bytes _ => "can't concat str to bytes"
        | .object _ => "unhashable type: 'slice'"
        | d => "can only concatenate " ++ d.form ++ " (not \"str\") to " ++ d.form)

/-- A cell of a table with a number of columns and one blank more. -/
def cell (width : Nat) (d : Datum) : Except Failure String :=
  match d with
  | .text s =>
    let shown := if s.length ≤ width then s
      else String.ofList (s.toList.take (width - 3)) ++ "..."
    .ok (padded (width + 1) shown)
  | d => .error (cellRefusal width d)

/-- Texts in one line; only texts can be joined. -/
def joined (ds : List Datum) : Except Failure String := do
  let texts ← ds.zipIdx.mapM fun (d, i) => match d with
    | .text s => return s
    | d => throw (.mistyped
        ("sequence item " ++ toString i ++ ": expected str instance, " ++ d.form ++ " found"))
  return Text.join ", " texts

/-- The name of a tweak as a heading; an unpainted one has to be a text. -/
def heading (r : TextReport) (name : Datum) : Except Failure String :=
  if r.painted then .ok (Style.bold.paint name.display)
  else match name with
    | .text s => .ok s
    | d => .error (.mistyped
        ("sequence item 0: expected str instance, " ++ d.form ++ " found"))

/-- The category of a tweak with its part, in one text. -/
def categoryText (t : Tweak) : Except Failure String :=
  if !t.subCategory.truthy then .ok t.category.display
  else
    let part := " / " ++ t.subCategory.display
    match t.category with
    | .text s => .ok (s ++ part)
    | .list items =>
      .ok (Datum.list (items ++ part.toList.map fun c => .text (String.singleton c))).display
    | .bytes _ => .error (.mistyped "can't concat str to bytes")
    | .tuple _ => .error (.mistyped "can only concatenate tuple (not \"str\") to tuple")
    | d => .error (.mistyped
        ("unsupported operand type(s) for +=: '" ++ d.form ++ "' and 'str'"))

/-- The lines about a tweak that are always shown. -/
def identity (r : TextReport) (t : Tweak) : Except Failure (List String) := do
  let category ←
    if t.category.truthy then do pure ["  Category: " ++ (← categoryText t)] else pure []
  let tags ←
    if t.tags.isEmpty then pure []
    else do pure ["  Tags: " ++ (← joined (← Datum.sorted t.tags))]
  let flags :=
    (if t.requiresRestart then [r.paint .caution "Requires Restart"] else []) ++
    (if t.isReversible then [] else [r.paint .bad "Not Reversible"])
  return ["  ID: " ++ t.id] ++ category ++
    ["  Severity: " ++ r.paint (.ofSeverity t.severity) t.severity.label] ++
    (if t.description.truthy then ["  Description: " ++ t.description.display] else []) ++
    tags ++ (if flags.isEmpty then [] else ["  " ++ Text.join ", " flags])

/-- The lines about the status of a tweak. -/
def verdict (r : TextReport) (s : Status) : List String :=
  ["  Status: " ++ r.paint (.ofStatus s) s.label ++ " (" ++
    Decimal.percent s.confidence.toFloat ++ " confidence)"] ++
  (if s.message = "" then [] else ["  Detail: " ++ s.message])

/-- The lines with the details of a tweak. -/
def details (t : Tweak) : Except Failure (List String) := do
  let operations ← t.operations.describe
  return ["  Operations: " ++ toString t.operations.count] ++
    operations.map (fun d => "    - " ++ d.display) ++
    (if t.documentationUrl.truthy then ["  Docs: " ++ t.documentationUrl.display] else [])

/-- A tweak, with its status if it is given. -/
def tweak (r : TextReport) (t : Tweak) (status : Option Status) : Except Failure String := do
  let identity ← r.identity t
  let details ← if r.verbose then details t else pure []
  let heading ← r.heading t.name
  return Text.join "\n"
    (heading :: identity ++ ((status.map r.verdict).getD []) ++ details)

/-- The rule above and below a table. -/
def rule : String := String.ofList (List.replicate 99 '-')

/-- A row of a table. -/
def row (r : TextReport) (i : Item) : Except Failure String := do
  let t := i.tweak
  let label := i.status.label ++ (if i.pending.isSome then "*" else "")
  return (← cell 27 (.text t.id)) ++ " " ++ (← cell 31 t.name) ++ " " ++ (← cell 13 t.category) ++
    " " ++ r.paint (.ofSeverity t.severity) (padded 9 t.severity.label) ++ " " ++
    r.paint (.ofStatus i.status) (padded 12 label)

/-- Tweaks with their statuses, as a table. -/
def list (r : TextReport) (items : List Item) : Except Failure String := do
  if items.isEmpty then return "No tweaks found."
  let rows ← items.mapM r.row
  let header := padded 28 "ID" ++ " " ++ padded 32 "Name" ++ " " ++ padded 14 "Category" ++ " " ++
    padded 9 "Severity" ++ " " ++ padded 12 "Status"
  let applied := items.countP fun i => i.status.detectedApplied
  return Text.join "\n" ([r.paint .bold header, rule] ++ rows ++
    [rule, "Total: " ++ toString items.length ++ " tweaks (" ++ toString applied ++ " applied)"])

/-- The word for a result, and its style. -/
def outcome (x : Result) : Style × String :=
  if x.cancelled then (.caution, "CANCELLED")
  else if x.skipped then (.dim, "SKIPPED")
  else if x.clean then (.good, "SUCCESS")
  else if x.success then (.caution, "PARTIAL")
  else (.bad, "FAILED")

/-- The result of one tweak. -/
def result (r : TextReport) (tweakId : String) (x : Result) : String :=
  let (style, word) := outcome x
  let reason := (x.errorMessage.filter (· ≠ "")).toList
  Text.join "\n" (
    [tweakId ++ " [" ++ r.paint style word ++ "] (" ++ Decimal.fixed 0 x.millis.toFloat ++ "ms)"] ++
    reason.map (fun text => "  Error: " ++ r.paint .bad text) ++
    x.failed.map (fun d => "  " ++ r.paint .bad "x" ++ " " ++ d.display) ++
    (if r.verbose then x.applied.map fun d => "  " ++ r.paint .good "+" ++ " " ++ d.display
      else []) ++
    x.messages.map (fun d => "  " ++ d.display) ++
    (if x.requiresRestart then ["  " ++ r.paint .caution "Restart required"] else []))

/-- The results of a batch. -/
def results (r : TextReport) (action : Action) (xs : Assoc String Result) : String :=
  if xs.isEmpty then "No tweaks were processed."
  else
    let succeeded := xs.countP fun e => e.2.clean
    Text.join "\n" (xs.map (fun e => r.result e.1 e.2) ++
      ["", action.label ++ ": " ++ toString succeeded ++ "/" ++ toString xs.length ++ " succeeded"])

/-- A progress report in one line. -/
def progress (p : Progress) : String :=
  "[" ++ Decimal.intText p.completed ++ "/" ++ Decimal.intText p.total ++ "] " ++ p.phase ++ " " ++
    p.name.display

/-- Categories, one on each line. -/
def categories (cs : List Datum) : String :=
  if cs.isEmpty then "No categories found."
  else Text.join "\n" (cs.map fun d => "  " ++ d.display)

end TextReport
end TweakEngine
