/-!
Dates of the Gregorian calendar, extended to all years, and their writing with a time of day. Days are
counted from the first of January 1970. A year is taken to begin in March, so that the day a leap year
adds comes last; 400 such years have 146097 days, and day 719468 of that count is day zero here.
-/

namespace SessionKeys

structure Date where
  year : Int
  month : Nat
  day : Nat
deriving DecidableEq, Repr

namespace Date

/-- The date of a day, counted from the first of January 1970. -/
def ofDays (days : Int) : Date :=
  let shifted := days + 719468
  let era := shifted / 146097
  let dayOfEra := (shifted % 146097).toNat
  let yearOfEra :=
    (dayOfEra - dayOfEra / 1460 + dayOfEra / 36524 - dayOfEra / 146096) / 365
  let dayOfYear := dayOfEra - (365 * yearOfEra + yearOfEra / 4 - yearOfEra / 100)
  let shiftedMonth := (5 * dayOfYear + 2) / 153
  let month := if shiftedMonth < 10 then shiftedMonth + 3 else shiftedMonth - 9
  { year := era * 400 + yearOfEra + (if month ≤ 2 then 1 else 0)
    month
    day := dayOfYear - (153 * shiftedMonth + 2) / 5 + 1 }

end Date

/-- A number with zeros in front, to at least `width` digits. -/
def paddedDecimal (width n : Nat) : String :=
  let digits := (toString n).toList
  String.ofList (List.replicate (width - digits.length) '0' ++ digits)

/-- A year: four digits from 0 to 9999, and otherwise a sign and six digits. -/
def yearText (year : Int) : String :=
  if 0 ≤ year ∧ year ≤ 9999 then paddedDecimal 4 year.toNat
  else (if year < 0 then "-" else "+") ++ paddedDecimal 6 year.natAbs

def Date.text (d : Date) : String :=
  s!"{yearText d.year}-{paddedDecimal 2 d.month}-{paddedDecimal 2 d.day}"

def timeOfDayText (milliseconds : Nat) : String :=
  let seconds := milliseconds / 1000
  let hours := paddedDecimal 2 (seconds / 3600)
  let minutes := paddedDecimal 2 (seconds / 60 % 60)
  s!"{hours}:{minutes}:{paddedDecimal 2 (seconds % 60)}.{paddedDecimal 3 (milliseconds % 1000)}"

/-- The writing of a time, in milliseconds from the start of 1970. -/
def timeText (milliseconds : Int) : String :=
  let date := Date.ofDays (milliseconds / 86400000)
  s!"{date.text}T{timeOfDayText (milliseconds % 86400000).toNat}Z"

end SessionKeys
