/-
# Results and captures as they are given

The JSON forms of what a report is about, read back.  Missing fields have their defaults,
so that a form can name just what matters.
-/

import TweakEngine.Detection.Description
import TweakEngine.Report.Forms

namespace TweakEngine

/-- The result for a tweak. -/
def Result.ofDatum (tweakId : String) (d : Datum) : Result where
  success := d.flagAt "success" true
  tweakId := tweakId
  errorMessage := (d.get "error_message").text?
  applied := d.listAt "applied"
  failed := d.listAt "failed"
  messages := d.listAt "messages"
  requiresRestart := d.flagAt "requires_restart" false
  millis := Number.ofDatum (d.get "ms")
  cancelled := d.flagAt "cancelled" false
  skipped := d.flagAt "skipped" false

/-- The progress of a batch: how many there are, how many are done, which one it is at,
and what is done with it. -/
def Progress.ofDatum (d : Datum) : Progress :=
  match d with
  | .list (.int total :: .int completed :: rest) =>
    ⟨total, completed, rest.getD 0 (.text ""), (rest.getD 1 (.text "")).display⟩
  | _ => ⟨0, 0, .text "", ""⟩

/-- What was in the registry. -/
def RegistryCapture.ofDatum (d : Datum) : RegistryCapture :=
  let value := match d.get "value" with
    | .registry v => some v
    | _ => none
  .of (d.flagAt "existed" false) value (d.flagAt "key_existed" true)

/-- What a service was. -/
def ServiceCapture.ofDatum (d : Datum) : ServiceCapture :=
  let state := d.get "state"
  ⟨StartupType.ofDatum (d.get "startup"),
    if state.isNull then none else some (RunState.ofDatum state)⟩

/-- What a file was. -/
def FileCapture.ofDatum (d : Datum) : FileCapture :=
  ⟨d.flagAt "existed" false, d.get "content"⟩

/-- The platform that a service runs on. -/
def Platform.ofDatum (interpreter : String) (d : Datum) : Platform :=
  let version (i : Nat) : String := ((d.listAt "win32_ver").getD i (.text "")).display
  { name := ((d.field? "platform").getD (.text "linux")).display
    architecture := ((d.field? "machine").getD (.text "x86_64")).display
    interpreter, release := version 0, version := version 1 }

end TweakEngine
