/-
What the search for the next run finds, and which schedules have one.

The candidates of a search are the readings that the clock shows one after
the other from the first one on (`Shows`). They are ever later instants, so
a search finds one exactly if some reading before its end matches
(`searchFrom_isSome_iff`), and a schedule has a next run exactly if the
year after the instant has such a minute (`HasNextRun`).
-/
import OneHarness.Cron.Jobs

namespace OneHarness.Cron

open Lib LocalTime Session

-- ======== the readings of a clock

/-- The clock is set to the reading, starting from another one and always a
minute ahead of what it shows. -/
inductive Shows (zone : TimeZone) (start : Int) : Int → Prop where
  | start : Shows zone start start
  | next {l : Int} (h : Shows zone start l) :
      Shows zone start (zone.localTime (zone.utc l) + msPerMinute)

section
variable {zone : TimeZone} {start l : Int}

/-- The first reading, or one that the clock shows after the second. -/
theorem Shows.cases_start (h : Shows zone start l) :
    l = start
      ∨ Shows zone (zone.localTime (zone.utc start) + msPerMinute) l := by
  induction h with
  | start => exact .inl rfl
  | next h ih =>
    rcases ih with rfl | ih
    · exact .inr .start
    · exact .inr ih.next

theorem Shows.of_next
    (h : Shows zone (zone.localTime (zone.utc start) + msPerMinute) l) :
    Shows zone start l := by
  induction h with
  | start => exact Shows.start.next
  | next h ih => exact ih.next

/-- The first reading is the earliest. -/
theorem Shows.utc_le (h : Shows zone start l) : zone.utc start ≤ zone.utc l := by
  induction h with
  | start => exact Int.le_refl _
  | @next m h ih =>
    have hadvances := zone.advances m
    omega

-- ======== the search

variable {fields : CronFields} {deadline : Int}

/-- A reading that ends the search: it is in time, a valid date, and
matches. -/
structure Hits (zone : TimeZone) (fields : CronFields) (deadline l : Int) :
    Prop where
  inTime : zone.utc l ≤ deadline
  valid : (zone.utc l).natAbs ≤ 8640000000000000
  hit : matchesCronFields (zone.localTime (zone.utc l)) fields = true

theorem timeClip_eq_some {ms : Int} (h : ms.natAbs ≤ 8640000000000000) :
    timeClip ms = some ⟨ms, h⟩ := dif_pos h

theorem timeClip_isSome {ms : Int} :
    (timeClip ms).isSome = true ↔ ms.natAbs ≤ 8640000000000000 := by
  rw [timeClip]
  by_cases h : ms.natAbs ≤ 8640000000000000
  · rw [dif_pos h]
    exact ⟨fun _ => h, fun _ => rfl⟩
  · rw [dif_neg h]
    exact ⟨fun hsome => (by cases hsome), fun hle => absurd hle h⟩

/-- What a search finds is the instant of a reading that ends it. -/
theorem of_searchFrom {date : Instant}
    (h : searchFrom zone fields deadline start = some date) :
    ∃ l, Shows zone start l ∧ Hits zone fields deadline l
      ∧ zone.utc l = date.1 := by
  induction start using searchFrom.induct zone fields deadline with
  | case1 l hin hclip =>
    rw [searchFrom, if_pos hin, hclip] at h
    cases h
  | case2 l hin candidate hclip hhit =>
    rw [searchFrom, if_pos hin, hclip] at h
    dsimp only at h
    rw [if_pos hhit] at h
    have hvalid := timeClip_isSome.1 (Option.isSome_of_eq_some hclip)
    rw [timeClip_eq_some hvalid] at hclip
    cases hclip
    cases h
    exact ⟨l, .start, ⟨hin, hvalid, hhit⟩, rfl⟩
  | case3 l hin candidate hclip hhit ih =>
    rw [searchFrom, if_pos hin, hclip] at h
    dsimp only at h
    rw [if_neg hhit] at h
    obtain ⟨l', hshows, hhits, heq⟩ := ih h
    exact ⟨l', hshows.of_next, hhits, heq⟩
  | case4 l hout =>
    rw [searchFrom, if_neg hout] at h
    cases h

/-- A search from a valid date finds something exactly if some reading ends
it. -/
theorem searchFrom_isSome_iff (hlow : -8640000000000000 ≤ zone.utc start) :
    (searchFrom zone fields deadline start).isSome = true
      ↔ ∃ l, Shows zone start l ∧ Hits zone fields deadline l := by
  constructor
  · intro h
    obtain ⟨date, hdate⟩ := Option.isSome_iff_exists.1 h
    obtain ⟨l, hshows, hhits, -⟩ := of_searchFrom hdate
    exact ⟨l, hshows, hhits⟩
  · rintro ⟨l, hshows, hhits⟩
    -- every candidate before the reading is in time and valid, so the search
    -- gets there
    induction start using searchFrom.induct zone fields deadline with
    | case1 m hin hclip =>
      have hle := hshows.utc_le
      have hvalid := hhits.valid
      have hsome : (timeClip (zone.utc m)).isSome = true := by
        rw [timeClip_isSome]
        omega
      rw [hclip] at hsome
      cases hsome
    | case2 m hin candidate hclip hhit =>
      rw [searchFrom, if_pos hin, hclip]
      dsimp only
      rw [if_pos hhit]
      rfl
    | case3 m hin candidate hclip hhit ih =>
      rw [searchFrom, if_pos hin, hclip]
      dsimp only
      rw [if_neg hhit]
      rcases hshows.cases_start with rfl | hnext
      · exact absurd hhits.hit hhit
      · apply ih _ hnext
        have hadvances := zone.advances m
        omega
    | case4 m hout =>
      have hle := hshows.utc_le
      have hin := hhits.inTime
      omega

end

-- ======== having a next run

/-- A cron expression has a next run after an instant: within 366 days of the
next minute, the clock shows a minute that matches it. -/
def HasCronRun (zone : TimeZone) (expression : String) (after : Instant) :
    Prop :=
  ∃ fields, parseCronExpression expression = .ok fields
    ∧ (zone.utc (floorMinute (zone.localTime after.1))).natAbs
      ≤ 8640000000000000
    ∧ ∃ l, Shows zone (minuteAfter zone after) l
      ∧ Hits zone fields (deadlineAfter zone after) l

/-- A schedule has a next run that is a date, or none at all. -/
def HasNextRun (zone : TimeZone) (schedule : AgentCronSchedule)
    (after : Instant) : Prop :=
  match schedule.kind with
  | .once => True
  | .interval => ∃ intervalMs, schedule.intervalMs = some intervalMs
      ∧ intervalMs ≠ 0 ∧ (after.1 + intervalMs).natAbs ≤ 8640000000000000
  | .cron => HasCronRun zone schedule.expression after

theorem nextMatchAfter_ok_iff (zone : TimeZone) (expression : String)
    (fields : CronFields) (after : Instant) :
    (∃ date, nextMatchAfter zone expression fields after = .ok date)
      ↔ (zone.utc (floorMinute (zone.localTime after.1))).natAbs
          ≤ 8640000000000000
        ∧ ∃ l, Shows zone (minuteAfter zone after) l
          ∧ Hits zone fields (deadlineAfter zone after) l := by
  rw [nextMatchAfter]
  by_cases hvalid : (zone.utc (floorMinute
      (zone.localTime after.1))).natAbs ≤ 8640000000000000
  · rw [timeClip_eq_some hvalid]
    have hlow : -8640000000000000 ≤ zone.utc (minuteAfter zone after) := by
      have hadvances := zone.advances (floorMinute (zone.localTime after.1))
      rw [minuteAfter]
      omega
    rw [← searchFrom_isSome_iff hlow]
    cases searchFrom zone fields (deadlineAfter zone after)
        (minuteAfter zone after) with
    | none =>
      constructor
      · rintro ⟨date, h⟩
        cases h
      · rintro ⟨-, h⟩
        cases h
    | some date =>
      constructor
      · intro _
        exact ⟨hvalid, rfl⟩
      · intro _
        exact ⟨date, rfl⟩
  · have hclip : timeClip
        (zone.utc (floorMinute (zone.localTime after.1))) = none := by
      rw [timeClip, dif_neg hvalid]
    rw [hclip]
    constructor
    · rintro ⟨date, h⟩
      cases h
    · rintro ⟨h, -⟩
      exact absurd h hvalid

variable {expression : String} {after : Instant}

/-- It is the one error of the search. -/
theorem nextMatchAfter_error {zone : TimeZone}
    {fields : CronFields}
    (h : ¬∃ date, nextMatchAfter zone expression fields after = .ok date) :
    nextMatchAfter zone expression fields after
      = .error (.noMatchWithinYear expression) := by
  rw [nextMatchAfter] at h ⊢
  split
  · rfl
  · rename_i hclip
    rw [hclip] at h
    dsimp only at h
    split
    · rename_i candidate hsearch
      rw [hsearch] at h
      exact absurd ⟨candidate, rfl⟩ h
    · rfl

theorem nextCronRunAfter_ok_iff (zone : TimeZone) (expression : String)
    (after : Instant) :
    (∃ date, nextCronRunAfter zone expression after = .ok date)
      ↔ HasCronRun zone expression after := by
  rw [nextCronRunAfter, HasCronRun]
  cases parseCronExpression expression with
  | error error =>
    constructor
    · rintro ⟨date, h⟩
      cases h
    · rintro ⟨fields, h, -⟩
      cases h
  | ok fields =>
    constructor
    · intro h
      exact ⟨fields, rfl, (nextMatchAfter_ok_iff zone expression fields
        after).1 h⟩
    · rintro ⟨fields', h, hruns⟩
      cases h
      exact (nextMatchAfter_ok_iff zone expression fields after).2 hruns

/-- An expression that is one, without a run, is answered with the error of
the search. -/
theorem nextCronRunAfter_error {zone : TimeZone}
    {fields : CronFields}
    (hparse : parseCronExpression expression = .ok fields)
    (h : ¬HasCronRun zone expression after) :
    nextCronRunAfter zone expression after
      = .error (.noMatchWithinYear expression) := by
  rw [← nextCronRunAfter_ok_iff, nextCronRunAfter, hparse] at h
  rw [nextCronRunAfter, hparse]
  exact nextMatchAfter_error h

theorem storedNextRun_cron_error {zone : TimeZone}
    {intervalMs : Option Nat} {error : CronError}
    (h : nextCronRunAfter zone expression after = .error error) :
    storedNextRun zone ⟨.cron, expression, intervalMs⟩ after
      = .error error := by
  rw [storedNextRun, nextRunAtForSchedule]
  dsimp only
  rw [h]
  rfl

theorem toISOString_ok_iff (ms : Int) :
    (∃ date, toISOString ms = .ok date) ↔ ms.natAbs ≤ 8640000000000000 := by
  rw [toISOString, ← timeClip_isSome]
  cases timeClip ms with
  | none =>
    constructor
    · rintro ⟨date, h⟩
      cases h
    · intro h
      cases h
  | some date => exact ⟨fun _ => rfl, fun _ => ⟨date, rfl⟩⟩

theorem toISOString_instant (date : Instant) :
    toISOString date.1 = .ok date := by
  rw [toISOString, timeClip_eq_some date.2]

/-- Storing the next run goes through exactly if there is one that is a
date, or none at all. -/
theorem storedNextRun_ok_iff (zone : TimeZone) (schedule : AgentCronSchedule)
    (after : Instant) :
    (∃ next, storedNextRun zone schedule after = .ok next)
      ↔ HasNextRun zone schedule after := by
  obtain ⟨kind, expression, intervalMs⟩ := schedule
  rw [storedNextRun, nextRunAtForSchedule, HasNextRun]
  cases kind with
  | once => exact ⟨fun _ => trivial, fun _ => ⟨none, rfl⟩⟩
  | interval =>
    cases intervalMs with
    | none =>
      constructor
      · rintro ⟨next, h⟩
        cases h
      · rintro ⟨ms, h, -⟩
        cases h
    | some intervalMs =>
      dsimp only
      by_cases hzero : intervalMs = 0
      · rw [if_pos hzero]
        constructor
        · rintro ⟨next, h⟩
          cases h
        · rintro ⟨ms, h, hne, -⟩
          cases h
          exact absurd hzero hne
      · rw [if_neg hzero]
        have hstored : ∀ next, (do return some (← toISOString
            (after.1 + intervalMs))) = Except.ok next
            ↔ ∃ date, toISOString (after.1 + intervalMs) = .ok date
              ∧ next = some date := by
          intro next
          cases toISOString (after.1 + intervalMs) with
          | error error =>
            constructor
            · intro h
              cases h
            · rintro ⟨date, h, -⟩
              cases h
          | ok date =>
            constructor
            · intro h
              cases h
              exact ⟨date, rfl, rfl⟩
            · rintro ⟨date', h, rfl⟩
              cases h
              rfl
        constructor
        · rintro ⟨next, h⟩
          obtain ⟨date, hdate, -⟩ := (hstored next).1 h
          exact ⟨intervalMs, rfl, hzero, (toISOString_ok_iff _).1 ⟨date, hdate⟩⟩
        · rintro ⟨ms, h, -, hvalid⟩
          cases h
          obtain ⟨date, hdate⟩ := (toISOString_ok_iff _).2 hvalid
          exact ⟨some date, (hstored _).2 ⟨date, hdate, rfl⟩⟩
  | cron =>
    dsimp only
    rw [← nextCronRunAfter_ok_iff]
    cases nextCronRunAfter zone expression after with
    | error error =>
      constructor
      · rintro ⟨next, h⟩
        cases h
      · rintro ⟨date, h⟩
        cases h
    | ok date =>
      constructor
      · intro _
        exact ⟨date, rfl⟩
      · intro _
        refine ⟨some date, ?_⟩
        show (do return some (← toISOString date.1)) = Except.ok (some date)
        rw [toISOString_instant]
        rfl

end OneHarness.Cron
