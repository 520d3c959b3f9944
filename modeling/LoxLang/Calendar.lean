import LoxLang.Log

namespace LoxLang

structure Calendar where
  year : Int
  month : Nat
  day : Nat
  /-- Days since the first of January, which is 1. -/
  yearDay : Nat
  weekday : Nat
  hour : Nat
  minute : Nat
  second : Nat
  nanosecond : Nat
  deriving Repr

namespace Calendar

def isLeap (y : Int) : Bool := y % 4 = 0 && (y % 100 ≠ 0 || y % 400 = 0)

def daysBefore : List Nat := [0, 31, 59, 90, 120, 151, 181, 212, 243, 273, 304, 334]

/-- The year, month and day that lie a number of days after the first of January 1970. Counting
starts on the first of March of year 0, so that a leap day ends its year. -/
def ofDays (days : Int) : Int × Nat × Nat :=
  let z := days + 719468
  let era := z / 146097
  let dayOfEra := (z % 146097).toNat
  let yearOfEra := (dayOfEra - dayOfEra / 1460 + dayOfEra / 36524 - dayOfEra / 146096) / 365
  let dayOfYear := dayOfEra - (365 * yearOfEra + yearOfEra / 4 - yearOfEra / 100)
  let shifted := (5 * dayOfYear + 2) / 153
  let day := dayOfYear - (153 * shifted + 2) / 5 + 1
  let month := if shifted < 10 then shifted + 3 else shifted - 9
  let year := (yearOfEra : Int) + era * 400
  (if month ≤ 2 then year + 1 else year, month, day)

/-- How many seconds before the epoch the calendar starts: with March of the year -292277022400. -/
def start : Int := 9223372028741760000

/-- Seconds since the epoch within the 64 bits of seconds that the calendar has. -/
def within (seconds : Int) : Int := (seconds + start) % (Nat.pow 2 64 : Int) - start

def ofMoment (m : Moment) : Calendar :=
  let days := within m.seconds / 86400
  let rest := (within m.seconds % 86400).toNat
  let (year, month, day) := ofDays days
  let leap := if isLeap year && 2 < month then 1 else 0
  { year, month, day
    yearDay := daysBefore.getD (month - 1) 0 + day + leap
    weekday := ((days + 4) % 7).toNat
    hour := rest / 3600
    minute := rest / 60 % 60
    second := rest % 60
    nanosecond := m.nanoseconds }

def months : List String :=
  ["January", "February", "March", "April", "May", "June", "July", "August", "September", "October",
    "November", "December"]

def weekdays : List String :=
  ["Sunday", "Monday", "Tuesday", "Wednesday", "Thursday", "Friday", "Saturday"]

def monthName (c : Calendar) : Text := months.getD (c.month - 1) ""

def weekdayName (c : Calendar) : Text := weekdays.getD c.weekday ""

end Calendar

end LoxLang
