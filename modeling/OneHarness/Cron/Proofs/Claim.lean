/-
When a claim goes through, and what it claims.

Every due job is advanced to its next run before anything is claimed, in
one pass over the jobs of a file; so the claim goes through exactly if every
due job has a next run (`claimDue_iff`). One that has none, a date that
comes every few years, stops the claim of all (`leapDay_stops_claims`).
-/
import OneHarness.Cron.Edits
import OneHarness.Cron.Proofs.Schedule

namespace OneHarness.Cron

open Lib LocalTime Session

theorem isDueJob_iff {job : AgentCronJob} {now : Instant} :
    isDueJob job now = true
      ↔ ∃ nextRunAt, job.nextRunAt = some nextRunAt
        ∧ job.status = .active ∧ nextRunAt.1 ≤ now.1 := by
  rw [isDueJob]
  cases job.nextRunAt with
  | none =>
    constructor
    · intro h
      cases h
    · rintro ⟨nextRunAt, h, -⟩
      cases h
  | some nextRunAt =>
    rw [Bool.and_eq_true, decide_eq_true_iff, decide_eq_true_iff]
    constructor
    · intro h
      exact ⟨nextRunAt, rfl, h⟩
    · rintro ⟨nextRunAt', h, hdue⟩
      cases h
      exact hdue

-- ======== one job of the pass

/-- A job after its claim. -/
def advance (job : AgentCronJob) (next : Option Instant)
    (claimedAt : Instant) : AgentCronJob :=
  { job with nextRunAt := next, updatedAt := claimedAt }

section
variable {zone : TimeZone} {claimedJobIds : List String}
  {dueAt claimedAt : Instant} {uuid : Nat → String} {drawn : Nat}
  {job : AgentCronJob} {jobs : List AgentCronJob}

theorem claimJobs_of_not_due (h : isDueJob job dueAt = false) :
    claimJobs zone claimedJobIds dueAt claimedAt uuid drawn (job :: jobs)
      = (claimJobs zone claimedJobIds dueAt claimedAt uuid drawn jobs).map
          fun r => (job :: r.1, r.2) := by
  rw [claimJobs, h]
  cases claimJobs zone claimedJobIds dueAt claimedAt uuid drawn jobs with
  | error error => rfl
  | ok r => rfl

theorem claimJobs_of_error (h : isDueJob job dueAt = true) {error : CronError}
    (hnext : storedNextRun zone job.schedule claimedAt = .error error) :
    claimJobs zone claimedJobIds dueAt claimedAt uuid drawn (job :: jobs)
      = .error error := by
  obtain ⟨scheduledFor, hsome, -⟩ := isDueJob_iff.1 h
  rw [claimJobs, h, hsome]
  dsimp only
  rw [hnext]
  rfl

/-- A due job with an outstanding dispatch is advanced and not claimed. -/
theorem claimJobs_of_claimed (h : isDueJob job dueAt = true)
    {next : Option Instant}
    (hnext : storedNextRun zone job.schedule claimedAt = .ok next)
    (hclaimed : claimedJobIds.contains job.id = true) :
    claimJobs zone claimedJobIds dueAt claimedAt uuid drawn (job :: jobs)
      = (claimJobs zone claimedJobIds dueAt claimedAt uuid drawn jobs).map
          fun r => ({ advance job next claimedAt with
            lastSkippedAt := some claimedAt } :: r.1, r.2) := by
  obtain ⟨scheduledFor, hsome, -⟩ := isDueJob_iff.1 h
  rw [claimJobs, h, hsome]
  dsimp only
  rw [hnext]
  show (if claimedJobIds.contains job.id = true then _ else _) = _
  rw [if_pos hclaimed]
  cases claimJobs zone claimedJobIds dueAt claimedAt uuid drawn jobs with
  | error error => rfl
  | ok r => rfl

/-- A due job without one is advanced and claimed. -/
theorem claimJobs_of_free {scheduledFor : Instant}
    (h : isDueJob job dueAt = true) (hsome : job.nextRunAt = some scheduledFor)
    {next : Option Instant}
    (hnext : storedNextRun zone job.schedule claimedAt = .ok next)
    (hfree : claimedJobIds.contains job.id = false) :
    claimJobs zone claimedJobIds dueAt claimedAt uuid drawn (job :: jobs)
      = (claimJobs zone claimedJobIds dueAt claimedAt uuid (drawn + 1)
          jobs).map fun r =>
            (advance job next claimedAt :: r.1,
              ({ id := uuid drawn, jobId := job.id, claimedAt, scheduledFor },
                { id := uuid drawn, job := advance job next claimedAt })
              :: r.2) := by
  rw [claimJobs, h, hsome]
  dsimp only
  rw [hnext]
  show (if claimedJobIds.contains job.id = true then _ else _) = _
  rw [if_neg (by rw [hfree]; decide)]
  cases claimJobs zone claimedJobIds dueAt claimedAt uuid (drawn + 1) jobs with
  | error error => rfl
  | ok r => rfl

-- ======== the pass

theorem exists_map_ok_iff {α β ε : Type} {x : Except ε α} {f : α → β} :
    (∃ y, x.map f = .ok y) ↔ ∃ r, x = .ok r := by
  cases x with
  | error error =>
    constructor
    · rintro ⟨y, h⟩
      cases h
    · rintro ⟨r, h⟩
      cases h
  | ok r => exact ⟨fun _ => ⟨r, rfl⟩, fun _ => ⟨f r, rfl⟩⟩

theorem map_ok_iff {α β ε : Type} {x : Except ε α} {f : α → β} {y : β} :
    x.map f = .ok y ↔ ∃ r, x = .ok r ∧ f r = y := by
  cases x with
  | error error =>
    constructor
    · intro h
      cases h
    · rintro ⟨r, h, -⟩
      cases h
  | ok r =>
    constructor
    · intro h
      cases h
      exact ⟨r, rfl, rfl⟩
    · rintro ⟨r', h, rfl⟩
      cases h
      rfl

/-- The pass goes through exactly if every due job has a next run. -/
theorem claimJobs_ok_iff :
    (∃ r, claimJobs zone claimedJobIds dueAt claimedAt uuid drawn jobs = .ok r)
      ↔ ∀ job ∈ jobs, isDueJob job dueAt = true →
        HasNextRun zone job.schedule claimedAt := by
  induction jobs generalizing drawn with
  | nil =>
    constructor
    · intro _ job hjob
      cases hjob
    · intro _
      exact ⟨_, rfl⟩
  | cons job jobs ih =>
    rw [List.forall_mem_cons]
    cases hdue : isDueJob job dueAt with
    | false =>
      rw [claimJobs_of_not_due hdue, exists_map_ok_iff, ih]
      constructor
      · intro h
        exact ⟨fun hfalse => (by cases hfalse), h⟩
      · intro h
        exact h.2
    | true =>
      rw [← storedNextRun_ok_iff]
      cases hnext : storedNextRun zone job.schedule claimedAt with
      | error error =>
        rw [claimJobs_of_error hdue hnext]
        constructor
        · rintro ⟨r, h⟩
          cases h
        · intro h
          obtain ⟨next, hok⟩ := h.1 rfl
          cases hok
      | ok next =>
        have hrest : (∃ r, claimJobs zone claimedJobIds dueAt claimedAt
            uuid drawn (job :: jobs) = .ok r)
            ↔ ∀ job ∈ jobs, isDueJob job dueAt = true →
              HasNextRun zone job.schedule claimedAt := by
          cases hclaimed : claimedJobIds.contains job.id with
          | true =>
            rw [claimJobs_of_claimed hdue hnext hclaimed, exists_map_ok_iff, ih]
          | false =>
            obtain ⟨scheduledFor, hsome, -⟩ := isDueJob_iff.1 hdue
            rw [claimJobs_of_free hdue hsome hnext hclaimed,
              exists_map_ok_iff, ih]
        rw [hrest]
        constructor
        · intro h
          exact ⟨fun _ => ⟨next, rfl⟩, h⟩
        · intro h
          exact h.2

/-- A claim of the job, for the occurrence that was due. -/
structure ClaimOf (zone : TimeZone) (claimedAt : Instant) (job : AgentCronJob)
    (claim : AgentCronDispatchRecord × AgentCronDispatch) : Prop where
  jobId : claim.1.jobId = job.id
  scheduledFor : job.nextRunAt = some claim.1.scheduledFor
  id : claim.2.id = claim.1.id
  job : ∃ next, storedNextRun zone job.schedule claimedAt = .ok next
    ∧ claim.2.job = advance job next claimedAt

/-- A pass that goes through claims every due job that has no outstanding
dispatch. -/
theorem claimJobs_claims {jobs' : List AgentCronJob}
    {claims : List (AgentCronDispatchRecord × AgentCronDispatch)}
    (h : claimJobs zone claimedJobIds dueAt claimedAt uuid drawn jobs
      = .ok (jobs', claims)) :
    ∀ job ∈ jobs, isDueJob job dueAt = true → job.id ∉ claimedJobIds →
      ∃ claim ∈ claims, ClaimOf zone claimedAt job claim := by
  induction jobs generalizing drawn jobs' claims with
  | nil =>
    intro job hjob
    cases hjob
  | cons job jobs ih =>
    intro job' hjob' hdue' hfree'
    rcases List.mem_cons.1 hjob' with rfl | hrest
    · obtain ⟨scheduledFor, hsome, -⟩ := isDueJob_iff.1 hdue'
      have hfree : claimedJobIds.contains job'.id = false := by
        rw [List.contains_eq_mem]
        exact decide_eq_false hfree'
      cases hnext : storedNextRun zone job'.schedule claimedAt with
      | error error =>
        rw [claimJobs_of_error hdue' hnext] at h
        cases h
      | ok next =>
        rw [claimJobs_of_free hdue' hsome hnext hfree, map_ok_iff] at h
        obtain ⟨r, -, heq⟩ := h
        cases heq
        refine ⟨_, List.mem_cons_self, rfl, hsome, rfl, ?_⟩
        exact ⟨next, hnext, rfl⟩
    · cases hdue : isDueJob job dueAt with
      | false =>
        rw [claimJobs_of_not_due hdue, map_ok_iff] at h
        obtain ⟨r, hr, heq⟩ := h
        cases heq
        exact ih hr job' hrest hdue' hfree'
      | true =>
        cases hnext : storedNextRun zone job.schedule claimedAt with
        | error error =>
          rw [claimJobs_of_error hdue hnext] at h
          cases h
        | ok next =>
          cases hclaimed : claimedJobIds.contains job.id with
          | true =>
            rw [claimJobs_of_claimed hdue hnext hclaimed, map_ok_iff] at h
            obtain ⟨r, hr, heq⟩ := h
            cases heq
            exact ih hr job' hrest hdue' hfree'
          | false =>
            obtain ⟨scheduledFor, hsome, -⟩ := isDueJob_iff.1 hdue
            rw [claimJobs_of_free hdue hsome hnext hclaimed, map_ok_iff] at h
            obtain ⟨r, hr, heq⟩ := h
            cases heq
            obtain ⟨claim, hclaim, hof⟩ :=
              ih hr job' hrest hdue' hfree'
            exact ⟨claim, List.mem_cons_of_mem _ hclaim, hof⟩

end

-- ======== one file, all files

variable {state : CronJobsState} {drawn : Nat}
  {dispatches : List AgentCronDispatch} {states : List CronJobsState}

section
variable {zone : TimeZone} {dueAt claimedAt : Instant} {uuid : Nat → String}

/-- The job is claimed: its dispatch is handed out and on record. -/
def Claimed (zone : TimeZone) (claimedAt : Instant) (job : AgentCronJob)
    (state : CronJobsState) (dispatches : List AgentCronDispatch) : Prop :=
  ∃ record ∈ state.dispatches, ∃ dispatch ∈ dispatches,
    ClaimOf zone claimedAt job (record, dispatch)

/-- No due job of these files stops the claim, and every one without an
outstanding dispatch is claimed. -/
def ClaimsAll (zone : TimeZone) (dueAt claimedAt : Instant)
    (states : List CronJobsState)
    (outcome : List CronJobsState
      × Except CronError (List AgentCronDispatch)) : Prop :=
  ∃ dispatches, outcome.2 = .ok dispatches
    ∧ List.Forall₂ (fun state state' => ∀ job ∈ state.jobs,
        isDueJob job dueAt = true →
          job.id ∉ state.dispatches.map (·.jobId) →
            Claimed zone claimedAt job state' dispatches) states outcome.1

/-- A file after a pass over its jobs. -/
def passed (state : CronJobsState)
    (r : List AgentCronJob × List (AgentCronDispatchRecord × AgentCronDispatch)) :
    CronJobsState × List AgentCronDispatch :=
  ({ jobs := r.1, dispatches := state.dispatches ++ r.2.map Prod.fst },
    r.2.map Prod.snd)

theorem claimDueInState_eq (state : CronJobsState) (drawn : Nat) :
    claimDueInState zone state dueAt claimedAt uuid drawn
      = (claimJobs zone (state.dispatches.map (·.jobId)) dueAt claimedAt uuid
          drawn state.jobs).map (passed state) := by
  rw [claimDueInState]
  cases claimJobs zone (state.dispatches.map (·.jobId)) dueAt claimedAt uuid
      drawn state.jobs with
  | error error => rfl
  | ok r => rfl

theorem claimDueInState_ok_iff {state : CronJobsState} {drawn : Nat} :
    (∃ r, claimDueInState zone state dueAt claimedAt uuid drawn = .ok r)
      ↔ ∀ job ∈ state.jobs, isDueJob job dueAt = true →
        HasNextRun zone job.schedule claimedAt := by
  rw [claimDueInState_eq, exists_map_ok_iff, claimJobs_ok_iff]

theorem claimDueInState_claims {state' : CronJobsState}
    (h : claimDueInState zone state dueAt claimedAt uuid drawn
      = .ok (state', dispatches)) :
    ∀ job ∈ state.jobs, isDueJob job dueAt = true →
      job.id ∉ state.dispatches.map (·.jobId) →
        Claimed zone claimedAt job state' dispatches := by
  rw [claimDueInState_eq, map_ok_iff] at h
  obtain ⟨⟨jobs', claims⟩, hpass, heq⟩ := h
  cases heq
  intro job hjob hdue hfree
  obtain ⟨claim, hclaim, hof⟩ := claimJobs_claims hpass job hjob hdue hfree
  refine ⟨claim.1, ?_, claim.2, List.mem_map_of_mem hclaim, hof⟩
  exact List.mem_append_right _ (List.mem_map_of_mem hclaim)

theorem Claimed.mono {job : AgentCronJob}
    {dispatches' : List AgentCronDispatch}
    (h : Claimed zone claimedAt job state dispatches)
    (hsub : ∀ d ∈ dispatches, d ∈ dispatches') :
    Claimed zone claimedAt job state dispatches' := by
  obtain ⟨record, hrecord, dispatch, hdispatch, hof⟩ := h
  exact ⟨record, hrecord, dispatch, hsub dispatch hdispatch, hof⟩

theorem claimDue_ok_iff {drawn : Nat} {states : List CronJobsState} :
    (∃ dispatches, (claimDue zone dueAt claimedAt uuid drawn states).2
        = .ok dispatches)
      ↔ ∀ state ∈ states, ∀ job ∈ state.jobs, isDueJob job dueAt = true →
        HasNextRun zone job.schedule claimedAt := by
  induction states generalizing drawn with
  | nil =>
    constructor
    · intro _ state hstate
      cases hstate
    · intro _
      exact ⟨[], rfl⟩
  | cons state states ih =>
    rw [List.forall_mem_cons, claimDue,
      ← @claimDueInState_ok_iff zone dueAt claimedAt uuid state drawn]
    cases claimDueInState zone state dueAt claimedAt uuid drawn with
    | error error =>
      constructor
      · rintro ⟨dispatches, h⟩
        cases h
      · rintro ⟨⟨r, h⟩, -⟩
        cases h
    | ok r =>
      rw [← @ih (drawn + r.2.length)]
      dsimp only
      cases claimDue zone dueAt claimedAt uuid (drawn + r.2.length)
          states with
      | mk states' outcome =>
        cases outcome with
        | error error =>
          constructor
          · rintro ⟨dispatches, h⟩
            cases h
          · rintro ⟨-, dispatches, h⟩
            cases h
        | ok more =>
          constructor
          · intro _
            exact ⟨⟨r, rfl⟩, more, rfl⟩
          · intro _
            exact ⟨r.2 ++ more, rfl⟩

theorem claimDue_claims
    (h : (claimDue zone dueAt claimedAt uuid drawn states).2 = .ok dispatches) :
    List.Forall₂ (fun state state' => ∀ job ∈ state.jobs,
        isDueJob job dueAt = true →
          job.id ∉ state.dispatches.map (·.jobId) →
            Claimed zone claimedAt job state' dispatches)
      states (claimDue zone dueAt claimedAt uuid drawn states).1 := by
  induction states generalizing drawn dispatches with
  | nil => exact .nil
  | cons state states ih =>
    rw [claimDue] at h ⊢
    cases hfirst : claimDueInState zone state dueAt claimedAt uuid drawn with
    | error error =>
      rw [hfirst] at h
      cases h
    | ok r =>
      rw [hfirst] at h
      dsimp only at h ⊢
      have htail := @ih (drawn + r.2.length)
      cases hrest : claimDue zone dueAt claimedAt uuid
          (drawn + r.2.length) states with
      | mk states' outcome =>
        rw [hrest] at h htail
        cases outcome with
        | error error => cases h
        | ok more =>
          cases h
          apply List.Forall₂.cons
          · intro job hjob hdue hfree
            apply (claimDueInState_claims hfirst job hjob hdue hfree).mono
            intro d hd
            exact List.mem_append_left _ hd
          · apply (htail rfl).imp
            intro s s' hs job hjob hdue hfree
            apply (hs job hjob hdue hfree).mono
            intro d hd
            exact List.mem_append_right _ hd

/-- The claim over all files goes through, and claims every due job without
an outstanding dispatch, exactly if every due job has a next run. -/
theorem claimDue_iff (zone : TimeZone) (dueAt claimedAt : Instant)
    (uuid : Nat → String) (drawn : Nat) (states : List CronJobsState) :
    ClaimsAll zone dueAt claimedAt states
        (claimDue zone dueAt claimedAt uuid drawn states)
      ↔ ∀ state ∈ states, ∀ job ∈ state.jobs, isDueJob job dueAt = true →
        HasNextRun zone job.schedule claimedAt := by
  rw [← @claimDue_ok_iff zone dueAt claimedAt uuid drawn]
  constructor
  · rintro ⟨dispatches, hok, -⟩
    exact ⟨dispatches, hok⟩
  · rintro ⟨dispatches, hok⟩
    exact ⟨dispatches, hok, claimDue_claims hok⟩

end

-- ======== a day in four years

def utc : TimeZone := .fixed 0

/-- 23:50 on 28 February 2028, and the midnight after it. -/
def leapEve : Instant := ⟨1835394600000, by decide⟩

def leapDay : Instant := ⟨1835395200000, by decide⟩

/-- What two jobs of a session are made from. -/
def leapInput (prompt scheduleText : String) : CreateAgentCronJobInput where
  activeSessionId := "active"
  sessionId := "session"
  sessionFile := "/sessions/session.jsonl"
  cwd := "/"
  label := none
  prompt := prompt
  scheduleText := scheduleText
  source := none
  runtimeKind := none
  deliveryMode := none

def leapJob : AgentCronJob :=
  newJob (leapInput "celebrate" "0 0 29 2 *") "leap" "celebrate" .cron none
    ⟨.cron, "0 0 29 2 *", none⟩ leapDay leapEve

def fiveMinutesJob : AgentCronJob :=
  newJob (leapInput "look around" "every 5m") "beat" "look around"
    .rlmHeartbeat (some .steer) ⟨.interval, "every 5m", some 300000⟩
    ⟨1835394900000, by decide⟩ leapEve

theorem create_leapJob :
    create utc (fun _ => none) (leapInput "celebrate" "0 0 29 2 *") "leap"
      leapEve = .ok leapJob := by
  decide +kernel

theorem create_fiveMinutesJob :
    createRlmHeartbeat utc (fun _ => none) (leapInput "look around" "every 5m")
      "beat" leapEve = .ok fiveMinutesJob := by
  decide +kernel

/-- The month and the date of a reading are those of its day. -/
theorem monthDate_day (l : Int) :
    monthDate l = monthDate (dayNumber l * msPerDay) := by
  have hday : dayNumber (dayNumber l * msPerDay) = dayNumber l := by
    rw [dayNumber, dayNumber, msPerDay]
    omega
  rw [monthDate, monthDate, hday]

theorem no_leap_day_soon :
    ∀ k < 368, monthDate ((21244 + (k : Nat)) * msPerDay) ≠ (2, 29) := by
  decide +kernel

/-- After its midnight, the day does not come again within the year. -/
theorem not_hasCronRun_leapDay : ¬HasCronRun utc "0 0 29 2 *" leapDay := by
  rintro ⟨fields, hparse, -, l, hshows, hhits⟩
  have hfields : parseCronExpression "0 0 29 2 *"
      = .ok ⟨[0], [0], [29], [2], [0, 1, 2, 3, 4, 5, 6, 7]⟩ := rfl
  rw [hfields] at hparse
  cases hparse
  have hstart : (1835395260000 : Int) ≤ l := by
    have hle := hshows.utc_le
    have hfirst : minuteAfter utc leapDay = 1835395260000 := rfl
    rw [hfirst] at hle
    exact Int.sub_le_sub_right_iff.1 hle
  have hend : l ≤ 1867017660000 := by
    have hle := hhits.inTime
    have hlast : deadlineAfter utc leapDay = 1867017660000 := rfl
    rw [hlast] at hle
    have hutc : utc.utc l = l - 0 := rfl
    omega
  have hreading : utc.localTime (utc.utc l) = l := by
    show l - 0 + 0 = l
    omega
  have hhit := hhits.hit
  rw [hreading] at hhit
  simp only [matchesCronFields, Bool.and_eq_true, List.contains_eq_mem,
    List.mem_singleton, decide_eq_true_eq] at hhit
  obtain ⟨⟨⟨⟨hminute, hhour⟩, hdate⟩, hmonth⟩, -⟩ := hhit
  rw [minutes, msPerMinute] at hminute
  rw [hours, msPerMinute] at hhour
  -- it is midnight, so of a later day
  have hday : 21244 ≤ dayNumber l ∧ dayNumber l < 21244 + 368 := by
    rw [dayNumber, msPerDay]
    omega
  obtain ⟨k, hk⟩ := Int.eq_ofNat_of_zero_le
    (show 0 ≤ dayNumber l - 21244 by omega)
  apply no_leap_day_soon k (by omega)
  have hsame : 21244 + (k : Int) = dayNumber l := by omega
  rw [hsame, ← monthDate_day, ← hmonth, ← hdate]

theorem nextCronRunAfter_leapDay :
    nextCronRunAfter utc "0 0 29 2 *" leapDay
      = .error (.noMatchWithinYear "0 0 29 2 *") := by
  have hfields : parseCronExpression "0 0 29 2 *"
      = .ok ⟨[0], [0], [29], [2], [0, 1, 2, 3, 4, 5, 6, 7]⟩ := rfl
  exact nextCronRunAfter_error hfields not_hasCronRun_leapDay

theorem storedNextRun_leapJob :
    storedNextRun utc leapJob.schedule leapDay
      = .error (.noMatchWithinYear "0 0 29 2 *") :=
  storedNextRun_cron_error nextCronRunAfter_leapDay

/-- Both jobs were accepted and are due; but 29 February does not come again
within a year, and that stops the claim of both. -/
theorem leapDay_stops_claims :
    create utc (fun _ => none) (leapInput "celebrate" "0 0 29 2 *") "leap"
        leapEve = .ok leapJob
      ∧ createRlmHeartbeat utc (fun _ => none)
          (leapInput "look around" "every 5m") "beat" leapEve
        = .ok fiveMinutesJob
      ∧ isDueJob leapJob leapDay = true
      ∧ isDueJob fiveMinutesJob leapDay = true
      ∧ claimDue utc leapDay leapDay (fun _ => "dispatch") 0
          [⟨[fiveMinutesJob, leapJob], []⟩]
        = ([⟨[fiveMinutesJob, leapJob], []⟩],
          .error (.noMatchWithinYear "0 0 29 2 *")) := by
  have hbeat : isDueJob fiveMinutesJob leapDay = true := by decide +kernel
  have hleap : isDueJob leapJob leapDay = true := by decide +kernel
  have hat : fiveMinutesJob.nextRunAt
      = some ⟨1835394900000, by decide⟩ := rfl
  have hnext : storedNextRun utc fiveMinutesJob.schedule leapDay
      = .ok (some ⟨1835395500000, by decide⟩) := by decide +kernel
  have hfails : claimJobs utc [] leapDay leapDay (fun _ => "dispatch") 0
      [fiveMinutesJob, leapJob] = .error (.noMatchWithinYear "0 0 29 2 *") := by
    rw [@claimJobs_of_free utc [] leapDay leapDay (fun _ => "dispatch") 0
        fiveMinutesJob [leapJob] _ hbeat hat _ hnext rfl,
      @claimJobs_of_error utc [] leapDay leapDay (fun _ => "dispatch") (0 + 1)
        leapJob [] hleap _ storedNextRun_leapJob]
    rfl
  have hfile : claimDueInState utc ⟨[fiveMinutesJob, leapJob], []⟩ leapDay
      leapDay (fun _ => "dispatch") 0
        = .error (.noMatchWithinYear "0 0 29 2 *") := by
    rw [claimDueInState_eq]
    exact congrArg (Except.map _) hfails
  refine ⟨create_leapJob, create_fiveMinutesJob, hleap, hbeat, ?_⟩
  rw [claimDue, hfile]

end OneHarness.Cron
