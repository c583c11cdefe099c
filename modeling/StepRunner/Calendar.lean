import StepRunner.Summary

/-!
# Calendar

Dates of the proleptic Gregorian calendar and times of day in local time. Years are counted from
1 March for the conversion, so that the leap day is the last day of its year.
-/

namespace StepRunner

structure Moment where
  year : Int
  month : Nat
  day : Nat
  hour : Nat
  minute : Nat
  second : Nat
  nanos : Nat
  deriving DecidableEq, Repr

namespace Calendar

/-- Days in 400 years. -/
def eraDays : Nat := 146097

/-- Days from 1 March of the year 0 to 1 January 1970. -/
def epochDays : Nat := 719468

/-- The year of an era that its `day` falls into; each lasts from March to February. -/
def yearOfEra (day : Nat) : Nat := (day - day / 1460 + day / 36524 - day / 146096) / 365

def dayOfYear (day : Nat) : Nat :=
  let y := yearOfEra day
  day - (365 * y + y / 4 - y / 100)

/-- Year, month and day of a day counted from the beginning of 1970. -/
def civil (days : Int) : Int × Nat × Nat :=
  let z := days + epochDays
  let day := (z.emod eraDays).toNat
  let doy := dayOfYear day
  let month := (5 * doy + 2) / 153
  let year := z.ediv eraDays * 400 + yearOfEra day
  let dayOfMonth := doy - (153 * month + 2) / 5 + 1
  if month < 10 then (year, month + 3, dayOfMonth) else (year + 1, month - 9, dayOfMonth)

def secondsPerDay : Nat := 86400

/-- The moment of a timestamp in local time. A full second of nanoseconds is a leap second. -/
def moment (t : Timestamp) : Moment :=
  let seconds := t.seconds + t.offset
  let (year, month, day) := civil (seconds.ediv secondsPerDay)
  let s := (seconds.emod secondsPerDay).toNat
  { year, month, day
    hour := s / 3600
    minute := s % 3600 / 60
    second := s % 60 + t.nanos / 1000000000
    nanos := t.nanos % 1000000000 }

/-- A number with zeros in front, `width` digits at least. -/
def padded (width n : Nat) : String :=
  let digits := toString n
  "".pushn '0' (width - digits.length) ++ digits

/-- Four digits; a year outside 0 to 9999 carries its sign. -/
def yearText (y : Int) : String :=
  if 0 ≤ y ∧ y ≤ 9999 then padded 4 y.toNat
  else (if y < 0 then "-" else "+") ++ padded 4 y.natAbs

def clockText (m : Moment) : String :=
  s!"{padded 2 m.hour}:{padded 2 m.minute}:{padded 2 m.second}"

/-- Nothing, or a point and as many groups of three digits as are needed. -/
def fractionText (nanos : Nat) : String :=
  if nanos = 0 then ""
  else if nanos % 1000000 = 0 then "." ++ padded 3 (nanos / 1000000)
  else if nanos % 1000 = 0 then "." ++ padded 6 (nanos / 1000)
  else "." ++ padded 9 nanos

/-- Month, day, year and time. -/
def reportTime (t : Timestamp) : String :=
  let m := moment t
  s!"{padded 2 m.month}-{padded 2 m.day}-{yearText m.year}, {clockText m}"

/-- An offset in hours and minutes, to the nearest minute. -/
def offsetText (offset : Int) : String :=
  let minutes := (offset.natAbs + 30) / 60
  (if offset < 0 then "-" else "+") ++ s!"{padded 2 (minutes / 60)}:{padded 2 (minutes % 60)}"

/-- Year, month, day, time and offset as in RFC 3339. -/
def rfc3339 (t : Timestamp) : String :=
  let m := moment t
  s!"{yearText m.year}-{padded 2 m.month}-{padded 2 m.day}T{clockText m}" ++
    fractionText m.nanos ++ offsetText t.offset

end Calendar

end StepRunner
