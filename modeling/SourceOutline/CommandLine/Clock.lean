/-! The time that log lines carry. -/
namespace SourceOutline.CommandLine

/-- A text in front of the level, and seconds in JSON texts. -/
structure Clock where
  stamp : String
  seconds : Nat

/-- A day of the calendar. -/
structure Date where
  year : Nat
  month : Nat
  day : Nat
  deriving DecidableEq, Repr

/-- The date of a day counted from the first of January 1970. Years are taken to start in March, so
that the leap day is the last of its year and 400 years have 146097 days. -/
def Date.ofDays (days : Nat) : Date :=
  let n := days + 719468
  let era := n / 146097
  let dayOfEra := n % 146097
  let yearOfEra := (dayOfEra - dayOfEra / 1460 + dayOfEra / 36524 - dayOfEra / 146096) / 365
  let dayOfYear := dayOfEra - (365 * yearOfEra + yearOfEra / 4 - yearOfEra / 100)
  let shifted := (5 * dayOfYear + 2) / 153
  let month := if shifted < 10 then shifted + 3 else shifted - 9
  { year := yearOfEra + era * 400 + if month ≤ 2 then 1 else 0
    month := month
    day := dayOfYear - (153 * shifted + 2) / 5 + 1 }

example : Date.ofDays 0 = ⟨1970, 1, 1⟩ := by decide
example : Date.ofDays 11016 = ⟨2000, 2, 29⟩ := by decide

namespace Clock

def twoDigits (n : Nat) : String := if n < 10 then s!"0{n}" else toString n

/-- The clock at a number of seconds since the first of January 1970. -/
def ofSeconds (seconds : Nat) : Clock :=
  let date := Date.ofDays (seconds / 86400)
  let time := seconds % 86400
  ⟨s!"{date.year}-{twoDigits date.month}-{twoDigits date.day}"
    ++ s!"T{twoDigits (time / 3600)}:{twoDigits (time / 60 % 60)}:{twoDigits (time % 60)}Z ",
   seconds⟩

end Clock
end SourceOutline.CommandLine
