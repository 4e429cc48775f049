/-
# Dates and times in words

`to_utc` and `to_naive_time` of `DateTime` and `Time` in `core/value`.

The proleptic Gregorian calendar, UTC.  Days are counted from 1 March of year 0 in eras of 400 years
(146097 days), so that the leap day is the last day of its year.  A date is written
`YYYY-MM-DDTHH:MM:SS`, with a sign before years past 9999 or before 0; timestamps outside the years
-262143 to 262142 have no date.
-/

import Arbor.Text.Number
import Arbor.Value.Basic

namespace Arbor

/-- Year, month and day of a number of days since 1 January 1970. -/
def civilOfDays (days : Int) : Int × Nat × Nat :=
  let shifted := days + 719468
  let era := shifted.fdiv 146097
  let dayOfEra := (shifted.fmod 146097).toNat
  let yearOfEra := (dayOfEra - dayOfEra / 1460 + dayOfEra / 36524 - dayOfEra / 146096) / 365
  let dayOfYear := dayOfEra - (365 * yearOfEra + yearOfEra / 4 - yearOfEra / 100)
  let month := (5 * dayOfYear + 2) / 153
  let day := dayOfYear - (153 * month + 2) / 5 + 1
  let year := (yearOfEra : Int) + era * 400
  if month < 10 then (year, month + 3, day) else (year + 1, month - 9, day)

/-- A year in at least four digits, signed past 9999 and before 0. -/
def writeYear (year : Int) : String :=
  if 0 ≤ year ∧ year ≤ 9999 then Text.padZeros 4 (toString year.natAbs)
  else (if year < 0 then "-" else "+") ++ Text.padZeros 4 (toString year.natAbs)

namespace DateTime

/-- The date and time, where the calendar has one. -/
def text? (d : DateTime) : Option String :=
  let t := d.timestamp.toInt
  if -8334601228800 ≤ t ∧ t ≤ 8210266876799 then
    let (year, month, day) := civilOfDays (t.fdiv 86400)
    let s := (t.fmod 86400).toNat
    let two (n : Nat) := Text.padZeros 2 (toString n)
    some (writeYear year ++ "-" ++ two month ++ "-" ++ two day ++ "T" ++ two (s / 3600) ++ ":" ++
      two (s / 60 % 60) ++ ":" ++ two (s % 60))
  else none

end DateTime

namespace TimeOfDay

/-- The time, if a clock can show it. -/
def text? (t : TimeOfDay) : Option String :=
  if t.isValid then
    some (Text.padInt 2 t.hour.toInt ++ ":" ++ Text.padInt 2 t.minute.toInt ++ ":" ++
      Text.padInt 2 t.second.toInt ++ "." ++ Text.padInt 3 t.millisecond.toInt)
  else none

end TimeOfDay
end Arbor
