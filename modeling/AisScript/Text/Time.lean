import AisScript.Text

/-!
# Moments

A moment is a number of microseconds since the beginning of 1970, and is written by the calendar
of today extended to all times, without a time zone.
-/

namespace AisScript

/-- A number of microseconds since the beginning of 1970. -/
structure Moment where
  micros : Int
deriving DecidableEq, Repr, Inhabited

namespace Moment

/-- A day of the calendar. -/
structure Date where
  year : Int
  month : Nat
  day : Nat
deriving DecidableEq, Repr

/-- The date of a day counted from the beginning of 1970.  Years are taken to begin in March, so
that the leap day is the last one; 400 years have 146097 days. -/
def dateOfDay (days : Int) : Date :=
  let shifted := days + 719468
  let era := shifted / 146097
  let dayOfEra := (shifted % 146097).toNat
  let yearOfEra := (dayOfEra - dayOfEra / 1460 + dayOfEra / 36524 - dayOfEra / 146096) / 365
  let dayOfYear := dayOfEra - (365 * yearOfEra + yearOfEra / 4 - yearOfEra / 100)
  let shiftedMonth := (5 * dayOfYear + 2) / 153
  let day := dayOfYear - (153 * shiftedMonth + 2) / 5 + 1
  let month := if shiftedMonth < 10 then shiftedMonth + 3 else shiftedMonth - 9
  let year : Int := yearOfEra + era * 400 + (if month ≤ 2 then 1 else 0)
  ⟨year, month, day⟩

/-- The microseconds since the last midnight. -/
def ofDay (m : Moment) : Nat := (m.micros % 86400000000).toNat

/-- The date of a moment. -/
def date (m : Moment) : Date := dateOfDay (m.micros / 86400000000)

/-- Hours, minutes and seconds. -/
def clock (m : Moment) : Text :=
  let s := m.ofDay / 1000000
  let two (n : Nat) : Text := Text.padded 2 10 n
  two (s / 3600) ++ ":" ++ two (s / 60 % 60) ++ ":" ++ two (s % 60)

/-- The time of day to the millisecond, the rest cut off. -/
def timeOfDay (m : Moment) : Text :=
  m.clock ++ "." ++ Text.padded 3 10 (m.ofDay / 1000 % 1000)

/-- A year with at least four digits. -/
def yearText (y : Int) : Text :=
  ((if y < 0 then [0x2D] else []) : Text) ++ Text.padded 4 10 y.natAbs

/-- Date and time to the microsecond. -/
def stamp (m : Moment) : Text :=
  let d := m.date
  yearText d.year ++ "-" ++ Text.padded 2 10 d.month ++ "-" ++ Text.padded 2 10 d.day ++ "T"
    ++ m.clock ++ "." ++ Text.padded 6 10 (m.ofDay % 1000000) ++ "Z"

end Moment

end AisScript
