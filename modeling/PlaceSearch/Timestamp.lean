import PlaceSearch.Decimal.Digits
import PlaceSearch.Time

/-!
# Timestamps

A time is written as date and time of day in the Gregorian calendar, at longitude zero, such
as `2026-01-02T03:04:05.500Z`: with no fraction of a second, or with three, six or nine
digits of it, as few as tell the time.  A leap second is the second 60 of its minute.
-/

namespace PlaceSearch

/-- A day of the calendar. -/
structure Date where
  year : Int
  month : Nat
  day : Nat
deriving DecidableEq, Repr

/-- The day a number of days after the epoch.  Years are counted from March on within eras of
400 years, so that the day that is not always there comes last. -/
def Date.ofDays (days : Int) : Date :=
  let shifted := days + 719468
  let era := shifted / 146097
  let dayOfEra := (shifted % 146097).toNat
  let yearOfEra := (dayOfEra - dayOfEra / 1460 + dayOfEra / 36524 - dayOfEra / 146096) / 365
  let dayOfYear := dayOfEra - (365 * yearOfEra + yearOfEra / 4 - yearOfEra / 100)
  let month := (5 * dayOfYear + 2) / 153
  let year := (yearOfEra : Int) + era * 400
  { year := if month < 10 then year else year + 1
    month := if month < 10 then month + 3 else month - 9
    day := dayOfYear - (153 * month + 2) / 5 + 1 }

/-- The fraction of a second in as few groups of three digits as tell it. -/
def fraction (nanos : Nat) : List Char :=
  let ds := Decimal.padLeft 9 (Decimal.digits nanos)
  if nanos = 0 then []
  else if nanos % 1000000 = 0 then '.' :: ds.take 3
  else if nanos % 1000 = 0 then '.' :: ds.take 6
  else '.' :: ds

def timestamp (t : Time) : String :=
  let date := Date.ofDays (t.seconds / secondsPerDay)
  let ofDay := t.ofDay.toNat
  let two (n : Nat) : List Char := Decimal.padLeft 2 (Decimal.digits n)
  let sign := if date.year < 0 then ['-'] else if date.year > 9999 then ['+'] else []
  String.ofList <| sign ++ Decimal.padLeft 4 (Decimal.digits date.year.natAbs)
    ++ '-' :: two date.month ++ '-' :: two date.day ++ 'T' :: two (ofDay / 3600)
    ++ ':' :: two (ofDay / 60 % 60) ++ ':' :: two (ofDay % 60 + t.isLeap.toNat)
    ++ fraction (t.nanos % nanosPerSecond) ++ ['Z']

end PlaceSearch
