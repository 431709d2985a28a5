/-!
# Moments as they are written

A moment is counted in seconds and nanoseconds from the start of 1970 and written as a date and a time
of day in universal time. Years of the calendar come in eras of four hundred, which begin in March so
that the day of a leap year stands last.
-/

namespace UtilityCss.Cli

/-- A moment in universal time. -/
structure Moment where
  /-- Seconds from the start of 1970. -/
  seconds     : Int
  nanoseconds : Nat
deriving DecidableEq, Repr

/-- A day of the calendar. -/
structure Day where
  year  : Int
  month : Nat
  day   : Nat
deriving DecidableEq, Repr

/-- The day that is a number of days after the first of 1970. -/
def Day.ofNumber (n : Int) : Day :=
  let fromMarch := n + 719468
  let era := fromMarch.fdiv 146097
  let inEra := (fromMarch.fmod 146097).toNat
  let year := (inEra - inEra / 1460 + inEra / 36524 - inEra / 146096) / 365
  let inYear := inEra - (365 * year + year / 4 - year / 100)
  let month := (5 * inYear + 2) / 153
  let day := inYear - (153 * month + 2) / 5 + 1
  let isLate := 10 ≤ month
  { year  := Int.ofNat year + era * 400 + (if isLate then 1 else 0)
    month := if isLate then month - 9 else month + 3
    day }

example : Day.ofNumber 0 = ⟨1970, 1, 1⟩ := by decide
example : Day.ofNumber 11016 = ⟨2000, 2, 29⟩ := by decide
example : Day.ofNumber 19782 = ⟨2024, 2, 29⟩ := by decide

/-- A number with zeros before it up to a width. -/
def padded (width n : Nat) : String :=
  let digits := toString n
  String.ofList (List.replicate (width - digits.length) '0') ++ digits

namespace Moment

/-- The date and the time of day, in whole seconds. -/
def wholeText (m : Moment) : String :=
  let d := Day.ofNumber (m.seconds.fdiv 86400)
  let s := (m.seconds.fmod 86400).toNat
  padded 4 d.year.toNat ++ "-" ++ padded 2 d.month ++ "-" ++ padded 2 d.day ++ "T" ++
    padded 2 (s / 3600) ++ ":" ++ padded 2 (s / 60 % 60) ++ ":" ++ padded 2 (s % 60)

/-- The fraction of a second, in as many groups of three digits as it needs. -/
def fractionText (m : Moment) : String :=
  let n := m.nanoseconds
  if n = 0 then ""
  else if n % 1000000 = 0 then "." ++ padded 3 (n / 1000000)
  else if n % 1000 = 0 then "." ++ padded 6 (n / 1000)
  else "." ++ padded 9 n

/-- A moment as a stylesheet has it. -/
def stamp (m : Moment) : String := m.wholeText ++ m.fractionText ++ "+00:00"

/-- A moment as a line of a report has it. -/
def reportStamp (m : Moment) : String :=
  m.wholeText ++ "." ++ padded 6 (m.nanoseconds / 1000) ++ "Z"

end Moment

end UtilityCss.Cli
