/-!
Points in time and their text in the header of a document.
-/

namespace MonitorExport

/-- A day of the calendar and a time of that day. -/
structure Timestamp where
  year : Int
  month : Nat
  day : Nat
  hour : Nat
  minute : Nat
  second : Nat
  /-- A leap second is counted here, in a second thousand million. -/
  nanosecond : Nat
deriving DecidableEq

namespace Timestamp

def isLeap (year : Int) : Bool :=
  year % 4 = 0 && (year % 100 ≠ 0 || year % 400 = 0)

/-- The number of days of a month. -/
def daysIn (year : Int) (month : Nat) : Nat :=
  if month = 2 then (if isLeap year then 29 else 28)
  else if month ∈ [4, 6, 9, 11] then 30
  else 31

/-- Whether there is such a time. Leap seconds follow the last second of a minute. -/
def isValid (t : Timestamp) : Bool :=
  -262143 ≤ t.year && t.year ≤ 262142 && 1 ≤ t.month && t.month ≤ 12 && 1 ≤ t.day
    && t.day ≤ daysIn t.year t.month && t.hour < 24 && t.minute < 60 && t.second < 60
    && t.nanosecond < 2000000000 && (t.nanosecond < 1000000000 || t.second = 59)

def secondsPerDay : Int := 86400

def daysPerEra : Int := 146097

/-- The day of the calendar that lies `days` after the first of January 1970. Years are counted from
March here, so that a leap day is the last one of its year. -/
def ofDays (days : Int) : Int × Nat × Nat :=
  let shifted := days + 719468
  let era := shifted / daysPerEra
  let dayOfEra := shifted % daysPerEra
  let yearOfEra := (dayOfEra - dayOfEra / 1460 + dayOfEra / 36524 - dayOfEra / 146096) / 365
  let dayOfYear := dayOfEra - (365 * yearOfEra + yearOfEra / 4 - yearOfEra / 100)
  let month := (5 * dayOfYear + 2) / 153
  let day := dayOfYear - (153 * month + 2) / 5 + 1
  let year := yearOfEra + 400 * era
  if month < 10 then (year, (month + 3).toNat, day.toNat)
  else (year + 1, (month - 9).toNat, day.toNat)

/-- The time that lies some seconds and nanoseconds after the start of 1970. -/
def ofSeconds (seconds : Int) (nanosecond : Nat) : Timestamp :=
  let (year, month, day) := ofDays (seconds / secondsPerDay)
  let rest := (seconds % secondsPerDay).toNat
  { year, month, day
    hour := rest / 3600
    minute := rest / 60 % 60
    second := rest % 60
    nanosecond }

/-- A number in at least `width` digits. -/
def padded (width n : Nat) : String :=
  let digits := toString n
  String.ofList (List.replicate (width - digits.length) '0') ++ digits

/-- A year in at least four digits, with a sign if it has more or is before the year zero. -/
def yearText (year : Int) : String :=
  if 0 ≤ year ∧ year ≤ 9999 then padded 4 year.toNat
  else (if year < 0 then "-" else "+") ++ padded 4 year.natAbs

/-- The text of a time. The microseconds are written if there are any. -/
def text (t : Timestamp) : String :=
  let seconds := t.second + t.nanosecond / 1000000000
  let date := yearText t.year ++ "-" ++ padded 2 t.month ++ "-" ++ padded 2 t.day
  let time := padded 2 t.hour ++ ":" ++ padded 2 t.minute ++ ":" ++ padded 2 seconds
  let micros := t.nanosecond / 1000
  date ++ "T" ++ time ++ (if micros = 0 then "" else "." ++ padded 6 micros)

end Timestamp

end MonitorExport
