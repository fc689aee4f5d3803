/-
# Styles of text on a terminal

A style is switched on by a sequence of control characters and off by another one.
Severities and verdicts have styles of their own.
-/

import TweakEngine.Detection.Status
import TweakEngine.Tweak

namespace TweakEngine

/-- How a text is shown on a terminal. -/
inductive Style
  | plain | bold | dim
  | low | medium | high | critical
  | good | bad | caution | neutral | unknown
  deriving DecidableEq, Repr

namespace Style

/-- The number of a style in its control sequence. -/
def number : Style → String
  | plain => "0"
  | bold => "1"
  | dim => "2"
  | low | good => "92"
  | medium | caution => "93"
  | high | bad => "91"
  | critical => "95"
  | neutral => "94"
  | unknown => "90"

/-- The control sequence that switches a style on. -/
def code (s : Style) : String := "\x1b[" ++ s.number ++ "m"

/-- A text in a style. -/
def paint (s : Style) (text : String) : String := s.code ++ text ++ plain.code

/-- The styles by their names. -/
def names : List (String × Style) :=
  [("RESET", plain), ("BOLD", bold), ("DIM", dim), ("SEVERITY_LOW", low),
   ("SEVERITY_MEDIUM", medium), ("SEVERITY_HIGH", high), ("SEVERITY_CRITICAL", critical),
   ("SUCCESS", good), ("FAILURE", bad), ("WARNING", caution), ("INFO", neutral),
   ("UNKNOWN", unknown)]

/-- The style of a severity. -/
def ofSeverity : Severity → Style
  | .low => low
  | .medium => medium
  | .high => high
  | .critical => critical

/-- The style of a verdict. -/
def ofStatus (s : Status) : Style :=
  if !s.canDetect then unknown else if s.isApplied then good else neutral

end Style
end TweakEngine
