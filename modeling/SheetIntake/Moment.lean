import SheetIntake.Decimal.Printed

/-!
# Moments

A moment is a count of seconds since the beginning of 1970. It is shown as a date and a time of day.
-/

namespace SheetIntake

structure Date where
  year : Nat
  month : Nat
  day : Nat
  deriving DecidableEq, Repr

namespace Date

/-- The date that lies so many days after the first of January 1970. The days are counted from the
first of March of the year zero, so that the day that is added in leap years ends a year. -/
def ofDays (days : Nat) : Date :=
  let shifted := days + 719468
  let era := shifted / 146097
  let dayOfEra := shifted % 146097
  let yearOfEra := (dayOfEra - dayOfEra / 1460 + dayOfEra / 36524 - dayOfEra / 146096) / 365
  let dayOfYear := dayOfEra - (365 * yearOfEra + yearOfEra / 4 - yearOfEra / 100)
  let shiftedMonth := (5 * dayOfYear + 2) / 153
  let day := dayOfYear - (153 * shiftedMonth + 2) / 5 + 1
  let month := if shiftedMonth < 10 then shiftedMonth + 3 else shiftedMonth - 9
  let year := yearOfEra + 400 * era
  { year := if month ≤ 2 then year + 1 else year, month, day }

def text (d : Date) : String :=
  String.ofList (Decimal.padded 4 d.year ++ '-' :: Decimal.padded 2 d.month ++
    '-' :: Decimal.padded 2 d.day)

end Date

structure Moment where
  seconds : Nat
  deriving DecidableEq, Repr

namespace Moment

def date (m : Moment) : Date :=
  Date.ofDays (m.seconds / 86400)

def text (m : Moment) : String :=
  let time := m.seconds % 86400
  String.ofList (m.date.text.toList ++ 'T' :: Decimal.padded 2 (time / 3600) ++
    ':' :: Decimal.padded 2 (time / 60 % 60) ++ ':' :: Decimal.padded 2 (time % 60))

end Moment

end SheetIntake
