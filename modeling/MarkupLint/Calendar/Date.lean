/-! # Dates

    A moment in universal time, broken up into the fields of the civil
    calendar. -/

namespace MarkupLint.Calendar

/-- A moment with its date and time of day. -/
structure Moment where
  /-- Seconds since the first of January 1970. -/
  seconds : Int
  year : Int
  month : Nat
  day : Nat
  hour : Nat
  minute : Nat
  second : Nat
  deriving DecidableEq, Repr

/-- Whether a year has a leap day. -/
def isLeap (year : Int) : Bool :=
  year % 4 = 0 && (year % 100 ≠ 0 || year % 400 = 0)

/-- The days from the first of January 1970 to the first of March of the
    year 0 in the proleptic calendar, counted backwards. -/
def daysBeforeEra : Int := 719468

/-- The date of a day, counted from the first of January 1970.  Years are
    taken to start in March, so that the leap day comes last. -/
def civil (days : Int) : Int × Nat × Nat :=
  let z := days + daysBeforeEra
  let era := z.fdiv 146097
  let doe := (z - era * 146097).toNat
  let yoe := (doe - doe / 1460 + doe / 36524 - doe / 146096) / 365
  let doy := doe - (365 * yoe + yoe / 4 - yoe / 100)
  let mp := (5 * doy + 2) / 153
  let day := doy - (153 * mp + 2) / 5 + 1
  let month := if mp < 10 then mp + 3 else mp - 9
  let year : Int := (yoe : Int) + era * 400 + if month ≤ 2 then 1 else 0
  (year, month, day)

/-- The moment of a number of seconds. -/
def Moment.ofSeconds (seconds : Int) : Moment :=
  let days := seconds.fdiv 86400
  let rest := (seconds - days * 86400).toNat
  let (year, month, day) := civil days
  ⟨seconds, year, month, day, rest / 3600, rest / 60 % 60, rest % 60⟩

namespace Moment

/-- The day of the week, from Sunday as zero. -/
def weekday (m : Moment) : Nat := ((m.seconds.fdiv 86400 + 4) % 7).toNat

/-- The days of the months before a month in a year. -/
def daysBefore (year : Int) (month : Nat) : Nat :=
  let february := if isLeap year then 29 else 28
  ([31, february, 31, 30, 31, 30, 31, 31, 30, 31, 30, 31].take (month - 1)).foldl (· + ·) 0

/-- The day of the year, from one. -/
def yearDay (m : Moment) : Nat := daysBefore m.year m.month + m.day

/-- The year and the week that the week of the moment belongs to: the week
    belongs to the year its Thursday lies in. -/
def isoWeek (m : Moment) : Int × Nat :=
  let monday := (m.weekday + 6) % 7
  let thursday := ofSeconds (m.seconds + (3 - (monday : Int)) * 86400)
  (thursday.year, (thursday.yearDay - 1) / 7 + 1)

/-- The week of the year, where weeks start on Sunday or on Monday and the
    days before the first such day are in week zero. -/
def weekNumber (m : Moment) (sunday : Bool) : Nat :=
  let since := if sunday then m.weekday else (m.weekday + 6) % 7
  (m.yearDay + 6 - since) / 7

end Moment

end MarkupLint.Calendar
