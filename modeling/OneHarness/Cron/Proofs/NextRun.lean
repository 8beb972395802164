/-
Whether the run that the search finds is the next minute that matches.

The search goes by the readings of the local clock, a minute ahead of what it
shows (`Shows`). Where the clock is set back these lead from a minute that is
shown again to the one after its first showing, and past the rest of the hour
that is shown again; where it is set forward by a part of a minute they are
no whole minutes any more. The run is the next matching minute exactly if
none of this meets or passes a match (`next_minute_iff`).
-/
import OneHarness.Cron.Proofs.Claim

namespace OneHarness.Cron

open Lib LocalTime Session

-- ======== statement vocabulary

section
variable (zone : TimeZone) (fields : CronFields)

/-- The local clock matches at the instant. -/
def MatchesAt (t : Int) : Prop :=
  matchesCronFields (zone.localTime t) fields = true

end

section
variable {zone : TimeZone} {fields : CronFields} {deadline start : Int}

end

/-- From an instant on the clock is that far ahead of UTC, and no reading from
there on was shown before. -/
structure Steady (zone : TimeZone) (since offset : Int) : Prop where
  local_eq : ∀ t, since ≤ t → zone.localTime t = t + offset
  utc_eq : ∀ l, since + offset ≤ l → zone.utc l = l - offset

section
variable {zone : TimeZone} {since offset : Int} {after : Instant}

section
variable (h : Steady zone since offset) (hsince : since + msPerMinute ≤ after.1)
include h hsince

end

end

end OneHarness.Cron
