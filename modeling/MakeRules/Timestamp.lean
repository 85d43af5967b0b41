import MakeRules.Text.Numeral

/-! Points in time, as milliseconds since 1970 and as ISO 8601 text in UTC. -/

set_option autoImplicit false

namespace MakeRules

/-- A day of the Gregorian calendar, extended to all years. -/
structure Date where
  year : Int
  month : Int
  day : Int
  deriving DecidableEq, Repr

/-- The date so many days after the first of January 1970. Years are counted from March,
so that a leap day is the last day of its year, and in eras of 400 years. -/
def Date.ofDays (days : Int) : Date :=
  -- 719468 days before 1970 lies the first of March of the year 0; an era has 146097 days
  let fromMarchZero := days + 719468
  let era := fromMarchZero / 146097
  let dayOfEra := fromMarchZero % 146097
  let yearOfEra := (dayOfEra - dayOfEra / 1460 + dayOfEra / 36524 - dayOfEra / 146096) / 365
  let dayOfYear := dayOfEra - (365 * yearOfEra + yearOfEra / 4 - yearOfEra / 100)
  -- from March on, five months have 153 days
  let monthFromMarch := (5 * dayOfYear + 2) / 153
  let month := if monthFromMarch < 10 then monthFromMarch + 3 else monthFromMarch - 9
  { year := yearOfEra + era * 400 + if month ≤ 2 then 1 else 0
    month := month
    day := dayOfYear - (153 * monthFromMarch + 2) / 5 + 1 }

namespace Timestamp

def millisecondsPerDay : Int := 86400000

/-- The farthest point in time, in either direction. -/
def limit : Int := 100000000 * millisecondsPerDay

/-- A year in four digits, or in six with a sign if four do not hold it. -/
def yearText (year : Int) : Text :=
  if 0 ≤ year ∧ year ≤ 9999 then Text.padded 4 year.toNat
  else (if year < 0 then '-' else '+') :: Text.padded 6 year.natAbs

/-- The text of a point in time, if it is within the limit. -/
def text? (milliseconds : Int) : Option Text :=
  if milliseconds.natAbs ≤ limit.natAbs then
    let date := Date.ofDays (milliseconds / millisecondsPerDay)
    let time := (milliseconds % millisecondsPerDay).toNat
    some (yearText date.year ++ '-' :: Text.padded 2 date.month.toNat ++
      '-' :: Text.padded 2 date.day.toNat ++ 'T' :: Text.padded 2 (time / 3600000) ++
      ':' :: Text.padded 2 (time / 60000 % 60) ++ ':' :: Text.padded 2 (time / 1000 % 60) ++
      '.' :: Text.padded 3 (time % 1000) ++ ['Z'])
  else none

def invalid : Text := "Invalid time value".toList

end Timestamp

end MakeRules
