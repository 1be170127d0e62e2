import Workflow.Time.Timestamp

/- Moments counted from the beginning of the year 1970. A count of days is split into
   eras of 400 years, which all have the same number of days, and the year of an era
   is taken to begin in March, so that the leap day is its last. -/
namespace Workflow.Timestamp

/-- The number of days in 400 years. -/
def daysOfEra : Nat := 146097

/-- The days from the first of March of the year 0 to the beginning of 1970. -/
def daysBefore1970 : Nat := 719468

/-- The year of an era that a day of it falls in, and the day of that year, both from zero. -/
def yearOfEra (day : Nat) : Nat × Nat :=
  let year := (day - day / 1460 + day / 36524 - day / 146096) / 365
  (year, day - (365 * year + year / 4 - year / 100))

/-- The beginning of a day, given by its number from the beginning of 1970. -/
def ofDay (day : Nat) : Timestamp :=
  let days := day + daysBefore1970
  let (year, dayOfYear) := yearOfEra (days % daysOfEra)
  let march := (5 * dayOfYear + 2) / 153
  let month := if march < 10 then march + 3 else march - 9
  { year := (year + 400 * (days / daysOfEra) + (if month ≤ 2 then 1 else 0) : Nat)
    month
    day := dayOfYear - (153 * march + 2) / 5 + 1
    hour := 0, minute := 0, second := 0, nano := 0 }

/-- The moment so many nanoseconds after the beginning of 1970. -/
def ofNanos (nanos : Nat) : Timestamp :=
  let seconds := nanos / 1000000000
  { ofDay (seconds / 86400) with
    hour := seconds / 3600 % 24
    minute := seconds / 60 % 60
    second := seconds % 60
    nano := nanos % 1000000000 }

end Workflow.Timestamp
