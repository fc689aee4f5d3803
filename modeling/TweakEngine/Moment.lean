/-
# Moments

A moment is a count of microseconds since the beginning of 1970, in one time zone
throughout.  It is written as a date, a `T` and the time of day; the microseconds are
left out when there are none.
-/

import TweakEngine.Decimal.Binary

namespace TweakEngine

/-- Microseconds since the beginning of 1970. -/
structure Moment where
  micros : Int
  deriving DecidableEq, Repr, Inhabited

namespace Moment

/-- Microseconds in a second. -/
def second : Int := 1000000

/-- Microseconds in a day. -/
def day : Int := 86400 * second

/-- The days from the beginning of 1970 to a date of the Gregorian calendar.  Years are
counted from March, so that the leap day is the last one. -/
def daysBefore (year month day : Int) : Int :=
  let y := if month ≤ 2 then year - 1 else year
  let era := y.fdiv 400
  let inEra := y - era * 400
  let fromMarch := if month ≤ 2 then month + 9 else month - 3
  let inYear := (153 * fromMarch + 2) / 5 + day - 1
  era * 146097 + inEra * 365 + inEra / 4 - inEra / 100 + inYear - 719468

/-- The date that lies a number of days after the beginning of 1970. -/
def dateAfter (days : Int) : Int × Int × Int :=
  let z := days + 719468
  let era := z.fdiv 146097
  let inEra := z - era * 146097
  let year := (inEra - inEra / 1460 + inEra / 36524 - inEra / 146096) / 365
  let inYear := inEra - (365 * year + year / 4 - year / 100)
  let fromMarch := (5 * inYear + 2) / 153
  let month := if fromMarch < 10 then fromMarch + 3 else fromMarch - 9
  (year + era * 400 + (if month ≤ 2 then 1 else 0), month, inYear - (153 * fromMarch + 2) / 5 + 1)

/-- Whether a year is a leap year. -/
def isLeap (year : Int) : Bool := year % 4 == 0 && (year % 100 != 0 || year % 400 == 0)

/-- The number of days of a month. -/
def daysIn (year month : Int) : Int :=
  if month == 2 then (if isLeap year then 29 else 28)
  else if month == 4 || month == 6 || month == 9 || month == 11 then 30
  else 31

/-- The moment of a date and a time of day, if there is such a date in the years 1 to 9999. -/
def ofFields? (year month dayOfMonth hour minute sec : Int) : Option Moment :=
  if 1 ≤ year ∧ year ≤ 9999 ∧ 1 ≤ month ∧ month ≤ 12 ∧ 1 ≤ dayOfMonth ∧
      dayOfMonth ≤ daysIn year month ∧ 0 ≤ hour ∧ hour < 24 ∧ 0 ≤ minute ∧ minute < 60 ∧
      0 ≤ sec ∧ sec < 60 then
    some ⟨daysBefore year month dayOfMonth * day + ((hour * 60 + minute) * 60 + sec) * second⟩
  else none

/-- The last digits of a number, as many as `width`. -/
def padded (width : Nat) (n : Int) : String :=
  let ds := Nat.toDigits 10 n.toNat
  String.ofList (List.replicate (width - ds.length) '0' ++ ds)

/-- A moment in writing. -/
def text (m : Moment) : String :=
  let (year, month, dayOfMonth) := dateAfter (m.micros.fdiv day)
  let rest := m.micros.fmod day
  let seconds := rest / second
  let micros := rest % second
  padded 4 year ++ "-" ++ padded 2 month ++ "-" ++ padded 2 dayOfMonth ++ "T" ++
    padded 2 (seconds / 3600) ++ ":" ++ padded 2 (seconds / 60 % 60) ++ ":" ++
    padded 2 (seconds % 60) ++ (if micros = 0 then "" else "." ++ padded 6 micros)

/-- A moment at the start of a line: date, time of day and milliseconds. -/
def stamp (m : Moment) : String :=
  let text := (m.text.toList.take 19).map fun c => if c = 'T' then ' ' else c
  String.ofList text ++ "," ++ padded 3 (m.micros % second / 1000)

/-- A double number of seconds in microseconds; a half goes to the even neighbour. -/
def microsOf (seconds : Float) : Int :=
  let whole := (Decimal.truncate? seconds).getD 0
  let rest := (seconds - Decimal.ofInt whole) * 1000000.0
  match Decimal.Parts.ofFloat rest with
  | .finite negative m q _ =>
    let n : Int := Decimal.roundDiv (Decimal.numerator m q) (Decimal.denominator q)
    whole * second + (if negative then -n else n)
  | _ => whole * second

/-- The milliseconds between two moments. -/
def millisBetween (start stop : Moment) : Float :=
  Decimal.ofInt (stop.micros - start.micros) / 1000000.0 * 1000.0

end Moment
end TweakEngine
