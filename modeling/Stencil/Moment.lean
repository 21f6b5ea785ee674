import Stencil.Text.Quoted

/-!
# Moments

A moment is counted from the beginning of 1970 and written as a date and a time of the day, both in
universal time.
-/

namespace Stencil

structure Moment where
  seconds : Nat
  micros : Nat
deriving DecidableEq, Repr

structure Date where
  year : Nat
  month : Nat
  day : Nat
deriving DecidableEq, Repr

/-- The date so many days after the beginning of 1970. Years begin in March here, so that the odd
day comes last: four centuries have 146097 days. -/
def Date.ofDays (days : Nat) : Date :=
  let shifted := days + 719468
  let rest := shifted % 146097
  let yearOfEra := (rest - rest / 1460 + rest / 36524 - rest / 146096) / 365
  let dayOfYear := rest - (365 * yearOfEra + yearOfEra / 4 - yearOfEra / 100)
  let monthFromMarch := (5 * dayOfYear + 2) / 153
  let month := if monthFromMarch < 10 then monthFromMarch + 3 else monthFromMarch - 9
  let year := yearOfEra + 400 * (shifted / 146097) + (if month ≤ 2 then 1 else 0)
  ⟨year, month, dayOfYear - (153 * monthFromMarch + 2) / 5 + 1⟩

namespace Moment

def day (m : Moment) (between : Text) : Text :=
  let date := Date.ofDays (m.seconds / 86400)
  Text.join between [Text.padded 4 date.year, Text.padded 2 date.month, Text.padded 2 date.day]

def clock (m : Moment) (between : Text) : Text :=
  let second := m.seconds % 86400
  Text.join between
    [Text.padded 2 (second / 3600), Text.padded 2 (second / 60 % 60), Text.padded 2 (second % 60)]

/-- The moment with its zone; a fraction of a second is written if there is one. -/
def iso (m : Moment) : Text :=
  Text.concat [m.day "-", "T", m.clock ":",
    if m.micros = 0 then [] else Text.concat [".", Text.padded 6 m.micros], "+00:00"]

/-- The moment as the record shows it. -/
def logged (m : Moment) : Text :=
  Text.concat [m.day "-", " ", m.clock ":", ",", Text.padded 3 (m.micros / 1000)]

/-- The name of a run: names of later runs are sorted behind it, and its last part tells it from
other runs of the same second. -/
def runName (m : Moment) (number : Nat) : Text :=
  Text.concat ["backup_", m.day [], "T", m.clock [], "Z_", Text.hexOfNat 8 number]

end Moment

end Stencil
