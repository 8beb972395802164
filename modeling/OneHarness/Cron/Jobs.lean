/-
The scheduled jobs of one file, and what happens to them under its lock:
due jobs are claimed, interrupted dispatches recovered, the results of
dispatches recorded, and the jobs that an edit hands in merged with those
that are there.

# Times

A time in the file is its ISO text, which `Date.parse` reads back; it is
kept as the instant.
-/
import OneHarness.Cron.Schedule
import OneHarness.Lib.JsMap

namespace OneHarness.Cron

open Lib LocalTime Session

inductive AgentCronJobStatus where
  | active | paused | completed | cancelled
deriving DecidableEq

inductive AgentCronJobSource where
  | cron | heartbeat | rlmHeartbeat
deriving DecidableEq

inductive AgentCronJobRuntimeKind where
  | topLevel | subagent
deriving DecidableEq

inductive AgentHeartbeatDeliveryMode where
  | steer | followUp
deriving DecidableEq

structure AgentCronJob where
  id : String
  status : AgentCronJobStatus
  source : Option AgentCronJobSource
  runtimeKind : Option AgentCronJobRuntimeKind
  deliveryMode : Option AgentHeartbeatDeliveryMode
  activeSessionId : String
  sessionId : String
  sessionFile : String
  cwd : String
  label : Option String
  prompt : String
  schedule : AgentCronSchedule
  createdAt : Instant
  updatedAt : Instant
  nextRunAt : Option Instant
  lastRunAt : Option Instant
  lastSkippedAt : Option Instant
  lastError : Option String
  runCount : Nat
deriving DecidableEq

structure AgentCronDispatchRecord where
  id : String
  jobId : String
  claimedAt : Instant
  scheduledFor : Instant
deriving DecidableEq

structure AgentCronDispatch where
  id : String
  job : AgentCronJob
deriving DecidableEq

structure CronJobsState where
  jobs : List AgentCronJob
  dispatches : List AgentCronDispatchRecord
deriving DecidableEq

def withoutNextRunAt (job : AgentCronJob) : AgentCronJob :=
  { job with nextRunAt := none }

-- ======== claiming

def isDueJob (job : AgentCronJob) (now : Instant) : Bool :=
  match job.nextRunAt with
  | some nextRunAt => job.status = .active && nextRunAt.1 ≤ now.1
  | none => false

/-- The next run of a schedule as it is stored. -/
def storedNextRun (zone : TimeZone) (schedule : AgentCronSchedule)
    (after : Instant) : Except CronError (Option Instant) := do
  match ← nextRunAtForSchedule zone schedule after with
  | some ms => return some (← toISOString ms)
  | none => return none

/-- The jobs from one on, with that many dispatches before them; `uuid k` is
the id of the `k`th dispatch. -/
def claimJobs (zone : TimeZone) (claimedJobIds : List String)
    (dueAt claimedAt : Instant) (uuid : Nat → String) :
    Nat → List AgentCronJob →
      Except CronError (List AgentCronJob
        × List (AgentCronDispatchRecord × AgentCronDispatch))
  | _, [] => .ok ([], [])
  | drawn, job :: jobs =>
    match isDueJob job dueAt, job.nextRunAt with
    | true, some scheduledFor => do
        let nextRunAt ← storedNextRun zone job.schedule claimedAt
        let advanced :=
          { job with nextRunAt := nextRunAt, updatedAt := claimedAt }
        if claimedJobIds.contains job.id then
          let (jobs, claims) ←
            claimJobs zone claimedJobIds dueAt claimedAt uuid drawn jobs
          return ({ advanced with lastSkippedAt := some claimedAt } :: jobs,
            claims)
        else
          let dispatch : AgentCronDispatchRecord :=
            { id := uuid drawn, jobId := job.id, claimedAt, scheduledFor }
          let (jobs, claims) ← claimJobs zone claimedJobIds dueAt claimedAt
            uuid (drawn + 1) jobs
          return (advanced :: jobs,
            (dispatch, { id := dispatch.id, job := advanced }) :: claims)
    | _, _ => do
        let (jobs, claims) ←
          claimJobs zone claimedJobIds dueAt claimedAt uuid drawn jobs
        return (job :: jobs, claims)

def claimDueInState (zone : TimeZone) (state : CronJobsState)
    (dueAt claimedAt : Instant) (uuid : Nat → String) (drawn : Nat) :
    Except CronError (CronJobsState × List AgentCronDispatch) := do
  let claimedJobIds := state.dispatches.map (·.jobId)
  let (jobs, claims) ←
    claimJobs zone claimedJobIds dueAt claimedAt uuid drawn state.jobs
  return ({ jobs, dispatches := state.dispatches ++ claims.map Prod.fst },
    claims.map Prod.snd)

/-- `claimDue` over the files of a store, one after the other: a throw leaves
the files from its own on as they were. -/
def claimDue (zone : TimeZone) (dueAt claimedAt : Instant)
    (uuid : Nat → String) : Nat → List CronJobsState →
      List CronJobsState × Except CronError (List AgentCronDispatch)
  | _, [] => ([], .ok [])
  | drawn, state :: states =>
    match claimDueInState zone state dueAt claimedAt uuid drawn with
    | .error error => (state :: states, .error error)
    | .ok (state, dispatches) =>
      match claimDue zone dueAt claimedAt uuid
          (drawn + dispatches.length) states with
      | (states, .error error) => (state :: states, .error error)
      | (states, .ok more) => (state :: states, .ok (dispatches ++ more))

end OneHarness.Cron
