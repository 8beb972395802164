/-
Instants and clock readings, as the `Date` of the language has them.

An instant is in milliseconds since the epoch, and so is a reading of a
local clock: `localTime` and `utc` of a zone lead from one to the other
and back. Where the clock is set forward some readings are skipped, and
`utc` takes them as if it had not been set yet; where it is set back some
occur twice, and `utc` takes the first.

# What a zone is

No rule for the offsets is assumed, but this one: from an instant that a
reading denotes, setting the clock a minute ahead leads to a later instant.
A loop that steps through the minutes needs it to end.
-/
import Mathlib.Data.Int.Notation
import Mathlib.Tactic.Common

namespace OneHarness.Lib.LocalTime

def msPerMinute : Int := 60000

def msPerDay : Int := 86400000

structure TimeZone where
  /-- `LocalTime(t)`. -/
  localTime : Int → Int
  /-- `UTC(t)`. -/
  utc : Int → Int
  advances : ∀ l, utc l < utc (localTime (utc l) + msPerMinute)

/-- A clock that is always that far ahead of UTC. -/
def TimeZone.fixed (offset : Int) : TimeZone where
  localTime t := t + offset
  utc l := l - offset
  advances l := by
    show l - offset < l - offset + offset + 60000 - offset
    omega

/-- A `Date` that is valid. -/
abbrev Instant := { ms : Int // ms.natAbs ≤ 8640000000000000 }

/-- `TimeClip`: `none` is an invalid date. -/
def timeClip (ms : Int) : Option Instant :=
  if h : ms.natAbs ≤ 8640000000000000 then some ⟨ms, h⟩ else none

-- ======== a clock's reading

/-- The reading at the start of its minute: `setSeconds(0, 0)`. -/
def floorMinute (l : Int) : Int := l - l % msPerMinute

def minutes (l : Int) : Nat := (l / msPerMinute % 60).toNat

def hours (l : Int) : Nat := (l / (60 * msPerMinute) % 24).toNat

/-- The day of the reading, counted from the epoch. -/
def dayNumber (l : Int) : Int := l / msPerDay

/-- `getDay()`: Sunday is 0. -/
def weekday (l : Int) : Nat := ((dayNumber l + 4) % 7).toNat

/-- The days since the last of February, and the year that began there, of a
day of the Gregorian calendar. -/
def dayOfYear (day : Int) : Int × Int :=
  let z := day + 719468
  let era := z / 146097
  let doe := z - era * 146097
  let yoe := (doe - doe / 1460 + doe / 36524 - doe / 146096) / 365
  (doe - (365 * yoe + yoe / 4 - yoe / 100), yoe + era * 400)

/-- `getMonth() + 1` and `getDate()`. -/
def monthDate (l : Int) : Nat × Nat :=
  let doy := (dayOfYear (dayNumber l)).1
  let mp := (5 * doy + 2) / 153
  ((if mp < 10 then mp + 3 else mp - 9).toNat,
    (doy - (153 * mp + 2) / 5 + 1).toNat)

example : monthDate 1835395199999 = (2, 28) := by decide
example : monthDate 1835395200000 = (2, 29) := by decide
example : weekday 0 = 4 := by decide

end OneHarness.Lib.LocalTime
