/-!
# Instants

An instant is a number of seconds since 1970 and a fraction of a second. A fraction of a whole
second or more stands for a leap second. `timestamp` writes an instant in the proleptic Gregorian
calendar, to the second.
-/

namespace FileWarden

/-- Seconds since the start of 1970, and nanoseconds after them. -/
structure Instant where
  seconds : Int
  nanos : Nat
  deriving DecidableEq, Repr

namespace Instant

/-- The first second of the year -262143. -/
def firstSecond : Int := -8334601228800

/-- The last second of the year 262142. -/
def lastSecond : Int := 8210266876799

/-- The instant of some seconds and nanoseconds: its year must be in range, and a leap second can
only come at the end of a minute. -/
def make? (seconds : Int) (nanos : Nat) : Option Instant :=
  if seconds < firstSecond ∨ lastSecond < seconds ∨ 2000000000 ≤ nanos then none
  else if 1000000000 ≤ nanos ∧ seconds % 60 ≠ 59 then none
  else some ⟨seconds, nanos⟩

/-- A calendar day. -/
structure Date where
  year : Int
  month : Nat
  day : Nat
  deriving DecidableEq, Repr

/-- The day so many days after the first day of 1970. Years are counted from March, in cycles of 400
years, so that the leap day comes last. -/
def Date.ofDays (days : Int) : Date :=
  let shifted := days + 719468
  let cycle := shifted / 146097
  let inCycle := (shifted % 146097).toNat
  let yearInCycle := (inCycle - inCycle / 1460 + inCycle / 36524 - inCycle / 146096) / 365
  let inYear := inCycle - (365 * yearInCycle + yearInCycle / 4 - yearInCycle / 100)
  let marchMonth := (5 * inYear + 2) / 153
  let day := inYear - (153 * marchMonth + 2) / 5 + 1
  let month := if marchMonth < 10 then marchMonth + 3 else marchMonth - 9
  ⟨yearInCycle + 400 * cycle + (if month ≤ 2 then 1 else 0), month, day⟩

/-- A number with zeros in front, up to a width. -/
def padded (width n : Nat) : String :=
  let digits := Nat.toDigits 10 n
  String.ofList (List.replicate (width - digits.length) '0' ++ digits)

/-- A year has four digits at least, and a sign if it is not in the range from 0 to 9999. -/
def yearText (year : Int) : String :=
  let sign := if year < 0 then "-" else if 9999 < year then "+" else ""
  sign ++ padded 4 year.natAbs

/-- The date and the time of an instant. -/
def timestamp (t : Instant) : String :=
  let date := Date.ofDays (t.seconds / 86400)
  let inDay := (t.seconds % 86400).toNat
  let second := if 1000000000 ≤ t.nanos then 60 else inDay % 60
  yearText date.year ++ "-" ++ padded 2 date.month ++ "-" ++ padded 2 date.day ++ "T" ++
    padded 2 (inDay / 3600) ++ ":" ++ padded 2 (inDay / 60 % 60) ++ ":" ++ padded 2 second ++ "Z"

end Instant
end FileWarden
