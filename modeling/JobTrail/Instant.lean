/-! # Instants

A point of time in UTC: seconds since 1970-01-01 and nanoseconds within the second, where a leap
second counts on from the last nanosecond of the second before it. Its text is the ISO form in
milliseconds, cut off rather than rounded.
-/

namespace JobTrail

structure Instant where
  seconds : Int
  nanos : Nat
deriving DecidableEq, Repr, Inhabited

structure CivilDate where
  year : Int
  month : Nat
  day : Nat
deriving DecidableEq, Repr

/-- The day with a given number since 1970-01-01. Years are counted from March, so that the day
added in leap years is the last of its year, and eras of 400 years have 146097 days each. -/
def CivilDate.ofDays (days : Int) : CivilDate :=
  let shifted := days + 719468
  let era := shifted.fdiv 146097
  let dayOfEra := (shifted.fmod 146097).toNat
  let yearOfEra := (dayOfEra - dayOfEra / 1460 + dayOfEra / 36524 - dayOfEra / 146096) / 365
  let dayOfYear := dayOfEra - (365 * yearOfEra + yearOfEra / 4 - yearOfEra / 100)
  let monthFromMarch := (5 * dayOfYear + 2) / 153
  let day := dayOfYear - (153 * monthFromMarch + 2) / 5 + 1
  let month := if monthFromMarch < 10 then monthFromMarch + 3 else monthFromMarch - 9
  ⟨era * 400 + yearOfEra + (if month ≤ 2 then 1 else 0), month, day⟩

def padDigits (width n : Nat) : String :=
  let digits := (Nat.repr n).toList
  String.ofList (List.replicate (width - digits.length) '0' ++ digits)

/-- Years outside 0 to 9999 carry a sign. -/
def CivilDate.printYear (year : Int) : String :=
  if year < 0 then "-" ++ padDigits 4 year.natAbs
  else if year < 10000 then padDigits 4 year.toNat
  else "+" ++ padDigits 4 year.toNat

/-- The ISO form with milliseconds, such as `2024-01-15T00:00:00.000Z`. -/
def Instant.iso (t : Instant) : String :=
  let date := CivilDate.ofDays (t.seconds.fdiv 86400)
  let second := (t.seconds.fmod 86400).toNat
  let millis := t.nanos / 1000000
  CivilDate.printYear date.year ++ "-" ++ padDigits 2 date.month ++ "-" ++ padDigits 2 date.day
    ++ "T" ++ padDigits 2 (second / 3600) ++ ":" ++ padDigits 2 (second / 60 % 60)
    ++ ":" ++ padDigits 2 (second % 60 + millis / 1000) ++ "." ++ padDigits 3 (millis % 1000) ++ "Z"

end JobTrail
